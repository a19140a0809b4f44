import Paycard.Proofs.Lookup
import Paycard.Proofs.Rule.Grammar
import Paycard.Service.Settings

/-! # Where the server's settings come from

The four settings are found by one rule: the flag comes first, then the variable, then the standard value,
and a text that cannot be read counts as none. Flags are looked for without a grammar, but where no value
is itself the name of a flag, the command line is as good as a table of its flags. So their order does not
matter, and each value reaches the setting of its own flag alone.
-/

namespace Paycard

/-- An unsigned number below a bound is written as at most one plus sign and then digits only. -/
inductive Text.WritesUnsigned (bound : Nat) : List Char → Nat → Prop where
  | intro {sign digits : List Char} (plus : sign = [] ∨ sign = ['+']) (nonempty : digits ≠ [])
      (digit : ∀ c ∈ digits, c.isDigit = true) (small : Text.valueOf digits < bound) :
      WritesUnsigned bound (sign ++ digits) (Text.valueOf digits)

theorem Text.unsigned?_eq_some_iff {bound n : Nat} {cs : List Char} :
    unsigned? bound cs = some n ↔ WritesUnsigned bound cs n := by
  constructor
  · intro read
    rw [unsigned?] at read
    split at read
    case isTrue digit =>
      obtain ⟨nonempty, rfl, small⟩ := Rule.valueBelow?_eq_some_iff.mp read
      obtain ⟨sign, plus, split⟩ := Rule.skipPlus_split cs
      have written := WritesUnsigned.intro plus nonempty (List.all_eq_true.mp digit) small
      rwa [← split] at written
    case isFalse => cases read
  · intro written
    cases written with
    | @intro sign digits plus nonempty digit small =>
        have skipped : skipPlus (sign ++ digits) = digits := by
          cases plus with
          | inr one => rw [one]; rfl
          | inl none =>
              obtain ⟨d, ds, rfl⟩ := List.exists_cons_of_ne_nil nonempty
              rw [none]
              exact Rule.skipPlus_of_isDigit (digit d List.mem_cons_self) ds
        rw [unsigned?, skipped, if_pos (List.all_eq_true.mpr digit)]
        exact Rule.valueBelow?_eq_some_iff.mpr ⟨nonempty, rfl, small⟩

theorem Text.WritesUnsigned.lt {bound n : Nat} {cs : List Char} (written : WritesUnsigned bound cs n) :
    n < bound := by
  cases written with
  | intro _ _ _ small => exact small

namespace Service

/-- The settings that can be given to the server. -/
inductive Setting where
  | port
  | url
  | timeoutMs
  | attempts
  deriving Repr, DecidableEq

namespace Setting

abbrev Value : Setting → Type
  | .port => UInt16
  | .url => String
  | .timeoutMs => UInt64
  | .attempts => UInt32

def flag : Setting → String
  | .port => "--port"
  | .url => "--url"
  | .timeoutMs => "--timeout-ms"
  | .attempts => "--attempts"

def variableName : Setting → String
  | .port => "PORT"
  | .url => "CARD_SCHEME_URL"
  | .timeoutMs => "CARD_SCHEME_TIMEOUT_MS"
  | .attempts => "CARD_SCHEME_ATTEMPTS"

def standard : (s : Setting) → s.Value
  | .port => Settings.standardPort
  | .url => Fetch.Settings.standard.url
  | .timeoutMs => Fetch.Settings.standard.timeoutMs
  | .attempts => Fetch.Settings.standard.maxAttempts

def read? : (s : Setting) → String → Option s.Value
  | .port => Fetch.readPort?
  | .url => some
  | .timeoutMs => Fetch.readMillis?
  | .attempts => Fetch.readAttempts?

/-- A setting as the server uses it. -/
def get (settings : Settings) : (s : Setting) → s.Value
  | .port => settings.port.getD Settings.standardPort
  | .url => settings.fetch.url
  | .timeoutMs => settings.fetch.timeoutMs
  | .attempts => settings.fetch.maxAttempts

/-- The texts that write a value: for the address the value itself, for a number its digits. -/
def Writes : (s : Setting) → String → s.Value → Prop
  | .port, text, value => Text.WritesUnsigned UInt16.size text.toList value.toNat
  | .url, text, value => text = value
  | .timeoutMs, text, value => Text.WritesUnsigned UInt64.size text.toList value.toNat
  | .attempts, text, value => Text.WritesUnsigned UInt32.size text.toList value.toNat

end Setting

/-- The argument right after the first occurrence of a flag. -/
def FollowsFirst (arguments : List String) (flag value : String) : Prop :=
  ∃ before after, arguments = before ++ flag :: value :: after ∧ flag ∉ before

namespace Setting

def FromFlag (s : Setting) (arguments : List String) (value : s.Value) : Prop :=
  ∃ text, FollowsFirst arguments s.flag text ∧ s.Writes text value

def FromVariable (s : Setting) (environment : String → Option String) (value : s.Value) : Prop :=
  ∃ text, environment s.variableName = some text ∧ s.Writes text value

/-- The value that a setting has: that of its flag, or else that of its variable, or else the standard
    one. -/
inductive Resolves (s : Setting) (arguments : List String) (environment : String → Option String) :
    s.Value → Prop where
  | flag {value : s.Value} : s.FromFlag arguments value → Resolves s arguments environment value
  | environment {value : s.Value} : (∀ other, ¬ s.FromFlag arguments other) →
      s.FromVariable environment value → Resolves s arguments environment value
  | standard : (∀ other, ¬ s.FromFlag arguments other) → (∀ other, ¬ s.FromVariable environment other) →
      Resolves s arguments environment s.standard

end Setting

/-- A command line that gives a flag and a value at a time after the program's name. -/
def commandLine (program : String) (pairs : List (String × String)) : List String :=
  program :: pairs.flatMap fun pair => [pair.1, pair.2]

/-- No flag is given twice, and what is no flag does not look like one. -/
structure Tidy (program : String) (pairs : List (String × String)) : Prop where
  program : ∀ s : Setting, program ≠ s.flag
  values : ∀ pair ∈ pairs, ∀ s : Setting, pair.2 ≠ s.flag
  distinct : (pairs.map Prod.fst).Nodup

/-- Two configurations that agree on everything but some of the settings. -/
structure AgreeExcept (changed : Setting → Prop) (left right : Settings) : Prop where
  get : ∀ s : Setting, ¬ changed s → s.get left = s.get right
  retryDelayMs : left.fetch.retryDelayMs = right.fetch.retryDelayMs

/-! ## One setting -/

theorem map_unsigned?_eq_some_iff {α : Type} {ofNat : Nat → α} {toNat : α → Nat} {bound : Nat}
    (kept : ∀ n < bound, toNat (ofNat n) = n) (back : ∀ value, ofNat (toNat value) = value)
    {cs : List Char} {value : α} :
    ofNat <$> Text.unsigned? bound cs = some value ↔ Text.WritesUnsigned bound cs (toNat value) := by
  constructor
  · intro read
    obtain ⟨n, unsigned, rfl⟩ := Option.map_eq_some_iff.mp read
    have written := Text.unsigned?_eq_some_iff.mp unsigned
    rwa [kept n written.lt]
  · intro written
    rw [Text.unsigned?_eq_some_iff.mpr written]
    exact congrArg some (back value)

theorem flagValue?_cons (argument : String) (arguments : List String) (flag : String) :
    flagValue? (argument :: arguments) flag =
      if argument = flag then arguments.head? else flagValue? arguments flag := by
  by_cases here : argument = flag
  · simp [flagValue?, here, List.head?_eq_getElem?]
  · simp [flagValue?, here]

theorem followsFirst_cons_iff {argument flag value : String} {arguments : List String} :
    FollowsFirst (argument :: arguments) flag value ↔
      if argument = flag then arguments.head? = some value else FollowsFirst arguments flag value := by
  split
  case isTrue here =>
    constructor
    · rintro ⟨before, after, whole, absent⟩
      cases before with
      | nil =>
          rw [(List.cons.inj whole).2]
          rfl
      | cons first before =>
          have same : first = flag := (List.cons.inj whole).1.symm.trans here
          exact absurd (same ▸ List.mem_cons_self) absent
    · intro next
      obtain ⟨after, rfl⟩ := List.head?_eq_some_iff.mp next
      exact ⟨[], after, by rw [here, List.nil_append], List.not_mem_nil⟩
  case isFalse elsewhere =>
    constructor
    · rintro ⟨before, after, whole, absent⟩
      cases before with
      | nil => exact absurd (List.cons.inj whole).1 elsewhere
      | cons first before =>
          exact ⟨before, after, (List.cons.inj whole).2, fun member => absent (List.mem_cons_of_mem _ member)⟩
    · rintro ⟨before, after, rfl, absent⟩
      refine ⟨argument :: before, after, rfl, fun member => ?_⟩
      exact (List.mem_cons.mp member).elim (fun same => elsewhere same.symm) absent

theorem flagValue?_eq_some_iff {arguments : List String} {flag value : String} :
    flagValue? arguments flag = some value ↔ FollowsFirst arguments flag value := by
  induction arguments with
  | nil => simp [flagValue?, FollowsFirst]
  | cons argument arguments ih =>
      rw [flagValue?_cons, followsFirst_cons_iff, ← ih]
      split <;> rfl

namespace Setting

theorem read?_eq_some_iff {s : Setting} {text : String} {value : s.Value} :
    s.read? text = some value ↔ s.Writes text value := by
  cases s with
  | port => exact map_unsigned?_eq_some_iff (fun _ => UInt16.toNat_ofNat_of_lt) fun _ => UInt16.ofNat_toNat
  | url => exact Option.some_inj
  | timeoutMs =>
      exact map_unsigned?_eq_some_iff (fun _ => UInt64.toNat_ofNat_of_lt) fun _ => UInt64.ofNat_toNat
  | attempts =>
      exact map_unsigned?_eq_some_iff (fun _ => UInt32.toNat_ofNat_of_lt) fun _ => UInt32.ofNat_toNat

variable {s : Setting} {arguments : List String} {environment : String → Option String}

theorem fromFlag_iff {value : s.Value} :
    (flagValue? arguments s.flag).bind s.read? = some value ↔ s.FromFlag arguments value := by
  simp only [Option.bind_eq_some_iff, flagValue?_eq_some_iff, read?_eq_some_iff, FromFlag]

theorem fromVariable_iff {value : s.Value} :
    (environment s.variableName).bind s.read? = some value ↔ s.FromVariable environment value := by
  simp only [Option.bind_eq_some_iff, read?_eq_some_iff, FromVariable]

/-- All four settings are found in the same way. -/
theorem get_resolve (s : Setting) (arguments : List String) (environment : String → Option String) :
    s.get (.resolve arguments environment) =
      (setting? s.read? arguments environment s.flag s.variableName).getD s.standard := by
  cases s <;> rfl

theorem fromFlag_eq_none_iff :
    (flagValue? arguments s.flag).bind s.read? = none ↔ ∀ value, ¬ s.FromFlag arguments value := by
  simp only [Option.eq_none_iff_forall_ne_some, ne_eq, fromFlag_iff]

theorem fromVariable_eq_none_iff :
    (environment s.variableName).bind s.read? = none ↔ ∀ value, ¬ s.FromVariable environment value := by
  simp only [Option.eq_none_iff_forall_ne_some, ne_eq, fromVariable_iff]

theorem get_resolve_eq_iff {value : s.Value} :
    s.get (.resolve arguments environment) = value ↔ s.Resolves arguments environment value := by
  rw [get_resolve, setting?]
  constructor
  · rintro rfl
    cases fromFlag : (flagValue? arguments s.flag).bind s.read? with
    | some value => exact .flag (fromFlag_iff.mp fromFlag)
    | none =>
        have noFlag := fromFlag_eq_none_iff.mp fromFlag
        cases fromVariable : (environment s.variableName).bind s.read? with
        | some value => exact .environment noFlag (fromVariable_iff.mp fromVariable)
        | none => exact .standard noFlag (fromVariable_eq_none_iff.mp fromVariable)
  · intro resolved
    cases resolved with
    | flag given => rw [fromFlag_iff.mpr given, Option.some_or, Option.getD_some]
    | environment noFlag given =>
        rw [fromFlag_eq_none_iff.mpr noFlag, fromVariable_iff.mpr given, Option.none_or, Option.getD_some]
    | standard noFlag noVariable =>
        rw [fromFlag_eq_none_iff.mpr noFlag, fromVariable_eq_none_iff.mpr noVariable, Option.none_or,
          Option.getD_none]

theorem get_resolve_congr {other : List String} {environment' : String → Option String}
    (sameFlag : flagValue? arguments s.flag = flagValue? other s.flag)
    (sameVariable : environment s.variableName = environment' s.variableName) :
    s.get (.resolve arguments environment) = s.get (.resolve other environment') := by
  rw [get_resolve, get_resolve, setting?, setting?, sameFlag, sameVariable]

end Setting

/-! ## Command lines as tables -/

theorem flagValue?_commandLine {program flag : String} {pairs : List (String × String)}
    (name : program ≠ flag) (values : ∀ pair ∈ pairs, pair.2 ≠ flag) :
    flagValue? (commandLine program pairs) flag = pairs.lookup flag := by
  rw [commandLine, flagValue?_cons, if_neg name]
  induction pairs with
  | nil => rfl
  | cons pair pairs ih =>
      obtain ⟨key, value⟩ := pair
      have noFlag : value ≠ flag := values (key, value) List.mem_cons_self
      have rest := ih fun other member => values other (List.mem_cons_of_mem _ member)
      simp only [List.flatMap_cons, List.cons_append, List.nil_append, flagValue?_cons, if_neg noFlag, rest]
      split
      case isTrue here => simp [here]
      case isFalse elsewhere => exact (lookup_cons_of_ne (Ne.symm elsewhere) value pairs).symm

theorem Tidy.flagValue?_eq {program : String} {pairs : List (String × String)}
    (tidy : Tidy program pairs) (s : Setting) :
    flagValue? (commandLine program pairs) s.flag = pairs.lookup s.flag :=
  flagValue?_commandLine (tidy.program s) fun pair member => tidy.values pair member s

/-- The settings depend on the values of the four flags alone. -/
theorem resolve_congr {arguments others : List String} (environment : String → Option String)
    (same : ∀ s : Setting, flagValue? arguments s.flag = flagValue? others s.flag) :
    Settings.resolve arguments environment = Settings.resolve others environment := by
  have port : flagValue? arguments "--port" = flagValue? others "--port" := same .port
  have url : flagValue? arguments "--url" = flagValue? others "--url" := same .url
  have timeoutMs : flagValue? arguments "--timeout-ms" = flagValue? others "--timeout-ms" := same .timeoutMs
  have attempts : flagValue? arguments "--attempts" = flagValue? others "--attempts" := same .attempts
  simp only [Settings.resolve, setting?, port, url, timeoutMs, attempts]

/-! ## All settings -/

theorem Tidy.change {program flag old new : String} {front back : List (String × String)}
    (tidy : Tidy program (front ++ (flag, old) :: back)) (notFlag : ∀ s : Setting, new ≠ s.flag) :
    Tidy program (front ++ (flag, new) :: back) where
  program := tidy.program
  values := by
    intro pair member
    rcases List.mem_append.mp member with before | here
    · exact tidy.values pair (List.mem_append_left _ before)
    · rcases List.mem_cons.mp here with rfl | after
      · exact notFlag
      · exact tidy.values pair (List.mem_append_right _ (List.mem_cons_of_mem _ after))
  distinct := by simpa using tidy.distinct

theorem Tidy.perm {program : String} {pairs others : List (String × String)}
    (tidy : Tidy program pairs) (perm : pairs.Perm others) : Tidy program others where
  program := tidy.program
  values := fun pair member => tidy.values pair (perm.mem_iff.mpr member)
  distinct := (perm.map Prod.fst).nodup tidy.distinct

theorem resolve_perm {program : String} {pairs others : List (String × String)}
    (tidy : Tidy program pairs) (perm : pairs.Perm others) (environment : String → Option String) :
    Settings.resolve (commandLine program pairs) environment =
      Settings.resolve (commandLine program others) environment := by
  apply resolve_congr
  intro s
  rw [tidy.flagValue?_eq, (tidy.perm perm).flagValue?_eq, lookup_perm tidy.distinct perm]

theorem agreeExcept_of_flag {program flag old new : String} {front back : List (String × String)}
    (tidy : Tidy program (front ++ (flag, old) :: back)) (notFlag : ∀ s : Setting, new ≠ s.flag)
    (environment : String → Option String) :
    AgreeExcept (·.flag = flag)
      (.resolve (commandLine program (front ++ (flag, old) :: back)) environment)
      (.resolve (commandLine program (front ++ (flag, new) :: back)) environment) where
  get := by
    intro s elsewhere
    apply Setting.get_resolve_congr _ rfl
    rw [tidy.flagValue?_eq, (tidy.change notFlag).flagValue?_eq, lookup_change elsewhere front back old new]
  retryDelayMs := rfl

theorem agreeExcept_of_variable {name : String} {environment environment' : String → Option String}
    (same : ∀ other, other ≠ name → environment other = environment' other) (arguments : List String) :
    AgreeExcept (·.variableName = name) (.resolve arguments environment)
      (.resolve arguments environment') where
  get := by
    intro s elsewhere
    exact Setting.get_resolve_congr rfl (same _ elsewhere)
  retryDelayMs := rfl

/-- Each setting has the value after the first occurrence of its flag, or else that of its variable, or
    else the standard one, where a text counts only if it writes a value. On a command line that gives
    flags with their values the order of the flags does not matter. A changed value of a flag or of a
    variable changes the setting that it belongs to and no other. -/
theorem settings_resolve_by_precedence (environment : String → Option String) :
    (∀ (s : Setting) (arguments : List String) (value : s.Value),
      s.get (.resolve arguments environment) = value ↔ s.Resolves arguments environment value) ∧
    (∀ (s : Setting) (text : String) (value : s.Value), s.read? text = some value ↔ s.Writes text value) ∧
    (∀ program pairs others, Tidy program pairs → pairs.Perm others →
      Settings.resolve (commandLine program pairs) environment =
        Settings.resolve (commandLine program others) environment) ∧
    (∀ program front flag old new back, Tidy program (front ++ (flag, old) :: back) →
      (∀ s : Setting, new ≠ s.flag) →
      AgreeExcept (·.flag = flag)
        (.resolve (commandLine program (front ++ (flag, old) :: back)) environment)
        (.resolve (commandLine program (front ++ (flag, new) :: back)) environment)) ∧
    ∀ arguments name environment', (∀ other, other ≠ name → environment other = environment' other) →
      AgreeExcept (·.variableName = name) (.resolve arguments environment)
        (.resolve arguments environment') := by
  refine ⟨?resolved, ?read, ?order, ?flag, ?surroundings⟩
  case resolved =>
    intro s arguments value
    exact Setting.get_resolve_eq_iff
  case read =>
    intro s text value
    exact Setting.read?_eq_some_iff
  case order =>
    intro program pairs others tidy perm
    exact resolve_perm tidy perm environment
  case flag =>
    intro program front flag old new back tidy notFlag
    exact agreeExcept_of_flag tidy notFlag environment
  case surroundings =>
    intro arguments name environment' same
    exact agreeExcept_of_variable same arguments

/-- More attempts are asked for than a setting can hold, so the variable is asked. -/
theorem settings_resolve_by_precedence_too_many_attempts :
    let environment : String → Option String := fun name =>
      if name = "CARD_SCHEME_ATTEMPTS" then some "5" else none
    let arguments := commandLine "server" [("--attempts", "4294967296"), ("--port", "+8080")]
    let settings := Settings.resolve arguments environment
    Tidy "server" [("--attempts", "4294967296"), ("--port", "+8080")] ∧
    settings.port = some 8080 ∧ Setting.attempts.Resolves arguments environment (5 : UInt32) ∧
    settings = .resolve (commandLine "server" [("--port", "+8080"), ("--attempts", "4294967296")]) environment ∧
    AgreeExcept (·.flag = "--attempts") settings
      (.resolve (commandLine "server" [("--attempts", "7"), ("--port", "+8080")]) environment) ∧
    AgreeExcept (·.variableName = "PORT") settings
      (.resolve arguments fun name => if name = "PORT" then some "1" else environment name) := by
  intro environment arguments settings
  obtain ⟨resolved, -, order, flag, surroundings⟩ := settings_resolve_by_precedence environment
  have tidy : Tidy "server" [("--attempts", "4294967296"), ("--port", "+8080")] := by
    refine ⟨?_, ?_, by decide⟩
    · intro s
      cases s <;> decide
    · intro pair member s
      rw [List.mem_cons, List.mem_singleton] at member
      rcases member with rfl | rfl <;> cases s <;> decide
  have seven : ∀ s : Setting, "7" ≠ s.flag := by
    intro s
    cases s <;> decide
  have port : settings.port = some 8080 := by decide
  have attempts : Setting.attempts.get settings = (5 : UInt32) := by decide
  refine ⟨tidy, port, (resolved _ _ _).mp attempts, order _ _ _ tidy (.swap _ _ _), flag _ [] _ _ _ _ tidy seven,
    surroundings _ "PORT" _ ?_⟩
  intro other elsewhere
  simp [elsewhere]

end Service

end Paycard
