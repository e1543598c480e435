import Flowchart.Text.DecimalDigit

/-!
# `Flowchart.CommandLine.Word`: words of a command line

A word that starts with a dash may name an option: by a spelling of it, by
the beginning of a long spelling that no other one has, or by a short
spelling with more letters behind it, each of which names a short option
again. A value may follow behind an equals sign; behind a short option the
value is more letters. Behind a word of two dashes nothing is an option. A
dash alone, a negative number and a word with a blank that names no option
are arguments like any other.

- `classify`, `classifyAll`: what words are, given the spellings of options;
- `spread`: the options that a word of short options names.
-/

set_option autoImplicit false

namespace Flowchart.CommandLine

/-- What an option asks for. -/
inductive Flag where
  | help
  | version
  | verbose
  | language
  | completion
deriving DecidableEq, Repr

/-- Whether an option takes a value. -/
def Flag.takesValue : Flag → Bool
  | .help | .version | .verbose => false
  | .language | .completion => true

/-- An option, and the value that stands in the same word. -/
abbrev Use := Flag × Option Text

/-- The spellings of options. -/
abbrev Spellings := List (Text × Flag)

/-- What is wrong with a command line. -/
inductive UsageFault where
  /-- A word could name several options. -/
  | ambiguous (word : Text)
  /-- An option that takes no value has one. -/
  | unexpectedValue (flag : Flag)
  /-- An option that takes a value has none. -/
  | missingValue (flag : Flag)
  | notLanguage (name : Text)
  | notShell (name : Text)
  | missingCommand
  | notCommand (name : Text)
  | missingFile
  /-- Words are left that mean nothing. -/
  | unrecognized (words : List Text)
deriving DecidableEq, Repr

/-- What a word of a command line is. -/
inductive Word where
  | argument (text : Text)
  /-- Two dashes, behind which nothing is an option. -/
  | separator
  | option (flag : Flag) (value : Option Text)
  /-- A short option with more letters behind it. -/
  | cluster (flag : Flag) (letters : Text)
  /-- It looks like an option and is none. -/
  | unknown (text : Text)
deriving DecidableEq, Repr

/-- The dash that options start with. -/
def dash : CodePoint := 0x2d

/-- The equals sign between an option and its value. -/
def equalsSign : CodePoint := 0x3d

/-- The word behind which nothing is an option. -/
def separatorText : Text := [dash, dash]

/-- A word cut at its first equals sign. -/
def splitValue (word : Text) : Text × Option Text :=
  let name := word.takeWhile (· != equalsSign)
  match word.dropWhile (· != equalsSign) with
  | [] => (name, none)
  | _ :: value => (name, some value)

/-- Whether a text is a number without a sign, whole or with a point. -/
def isUnsignedNumber (text : Text) : Bool :=
  match text.dropWhile Text.isDigit with
  | [] => !text.isEmpty
  | point :: fraction =>
    point == ('.' : CodePoint) && !fraction.isEmpty && fraction.all Text.isDigit

/-- Whether a text is a negative number. A line break at its end does not
count. -/
def isNegativeNumber : Text → Bool
  | [] => false
  | c :: rest =>
    let body := if rest.getLast? == some ('\n' : CodePoint) then rest.dropLast else rest
    c == dash && isUnsignedNumber body

/-- Whether an option is spelled with one dash. -/
def isShort (spelling : Text) : Bool :=
  spelling[1]? != some dash

/-- An option with what stands behind its spelling: the value of a long
option, or more letters behind a short one. -/
def withValue (spelling : Text) (flag : Flag) (value : Text) : Word :=
  if isShort spelling then .cluster flag value else .option flag (some value)

/-- The options that a word of long spelling could name. -/
def longCandidates (spellings : Spellings) (word : Text) : List Word :=
  let (name, value) := splitValue word
  (spellings.filter fun spelling => name.isPrefixOf spelling.1).map fun spelling =>
    .option spelling.2 value

/-- The options that a word of short spelling could name. -/
def shortCandidates (spellings : Spellings) (word : Text) : List Word :=
  (spellings.filter fun spelling => spelling.1 == word.take 2).map fun spelling =>
    .cluster spelling.2 (word.drop 2)

/-- What a word with a dash is that spells no option in full: every option
that it could name. -/
def candidates (spellings : Spellings) (word : Text) : List Word :=
  if isShort word then shortCandidates spellings word else longCandidates spellings word

/-- The option that a word spells in full, with what stands behind it. -/
def spelled? (spellings : Spellings) (word : Text) : Option Word :=
  match spellings.lookup word with
  | some flag => some (.option flag none)
  | none =>
    match splitValue word with
    | (name, some value) => (spellings.lookup name).map fun flag => withValue name flag value
    | (_, none) => none

/-- What a word that starts with a dash and names no option is. -/
def classifyOther (word : Text) : Word :=
  if isNegativeNumber word || word.contains (' ' : CodePoint) then .argument word else .unknown word

/-- What a word is. -/
def classify (spellings : Spellings) (word : Text) : Except UsageFault Word :=
  if word == separatorText then .ok .separator
  else if word.head? != some dash || word == [dash] then .ok (.argument word)
  else
    match spelled? spellings word with
    | some option => .ok option
    | none =>
      match candidates spellings word with
      | [] => .ok (classifyOther word)
      | [option] => .ok option
      | _ => .error (.ambiguous word)

/-- What the words of a command line are. -/
def classifyAll (spellings : Spellings) : List Text → Except UsageFault (List Word)
  | [] => .ok []
  | text :: rest => do
    match ← classify spellings text with
    | .separator => return .separator :: rest.map .argument
    | word =>
      let words ← classifyAll spellings rest
      return word :: words

/-- The options that a short option and the letters behind it name. Every
letter has to name one, and there is at least one letter, unless an option takes
what is left of the word as its value. -/
def spread (spellings : Spellings) (flag : Flag) (letters : Text) :
    Except UsageFault (List Use) :=
  if flag.takesValue then .ok [(flag, some letters)]
  else
    match letters with
    | [] => .error (.unexpectedValue flag)
    | letter :: rest =>
      match spellings.lookup [dash, letter] with
      | none => .error (.unexpectedValue flag)
      | some next =>
        if rest.isEmpty then .ok [(flag, none), (next, none)]
        else (spread spellings next rest).map ((flag, none) :: ·)

/-- The value that the words behind an option begin with. -/
def valueBehind (spellings : Spellings) (flag : Flag) : List Text → Except UsageFault Text
  | [] => .error (.missingValue flag)
  | word :: _ => do
    match ← classify spellings word with
    | .argument value => return value
    | _ => .error (.missingValue flag)

/-- An option with the value that it takes, which may be the next of the words behind
it. -/
def completed (spellings : Spellings) (rest : List Text) : Use → Except UsageFault Use
  | (flag, none) => do
    if flag.takesValue then return (flag, some (← valueBehind spellings flag rest))
    else return (flag, none)
  | (flag, some value) =>
    if flag.takesValue then .ok (flag, some value) else .error (.unexpectedValue flag)

end Flowchart.CommandLine
