import Paycard.Proofs.Text.Pieces
import Paycard.Rule.Parser

/-! # The grammar of rule text

The relations `Writes` and `IsToken` say which literals are integers and which tokens are rules, without
a reader. The rule reader accepts exactly these tokens. It reads each token by itself, and a token that
it drops can be told from its report, because only the separators change.
-/

namespace Paycard

instance : Append RuleText :=
  ⟨fun left right => ⟨left.rules ++ right.rules, left.dropped ++ right.dropped⟩⟩

namespace Rule

open Text

/-- A literal is an integer when it is white space, at most one plus sign, a longest run of digits of
    that value, and anything after them. -/
inductive Writes : List Char → UInt64 → Prop where
  | intro {blanks sign digits junk : List Char} {value : UInt64}
      (blank : ∀ c ∈ blanks, isBlank c = true) (plus : sign = [] ∨ sign = ['+'])
      (nonempty : digits ≠ []) (digit : ∀ c ∈ digits, c.isDigit = true)
      (longest : ∀ c ∈ junk.head?, c.isDigit = false) (sameValue : valueOf digits = value.toNat) :
      Writes (blanks ++ sign ++ digits ++ junk) value

/-- A token is a rule when it is one integer, or two in order with a hyphen between them. -/
inductive IsToken : List Char → Rule → Prop where
  | digits {token : List Char} {value : UInt64} :
      '-' ∉ token → Writes token value → IsToken token (.digits value)
  | interval {low high : List Char} {min max : UInt64} :
      '-' ∉ low → '-' ∉ high → Writes low min → Writes high max → min ≤ max →
      IsToken (low ++ '-' :: high) (.interval min max)

/-- The report on a token: the token itself with commas for its hyphens. -/
def report (token : List Char) : MalformedRule :=
  ⟨String.ofList (token.map fun c => if c = '-' then ',' else c)⟩

/-- The token of a report. -/
def reported (e : MalformedRule) : List Char :=
  e.literal.toList.map fun c => if c = ',' then '-' else c

/-- The integer that a literal starts with, read by byte offsets. The outer option is empty when the
    text would be cut inside a character or past its end. -/
def leadingIntegerByOffset (literal : List Char) : Option (Option UInt64) :=
  let trimmed := skipPlus (literal.dropWhile isBlank)
  match offsetOf (!Char.isDigit ·) trimmed with
  | 0 => some none
  | stop => (fun digits => UInt64.ofNat <$> unsigned? UInt64.size digits) <$> cutAt? stop trimmed

/-! ## Integers -/

theorem isBlank_of_isDigit {c : Char} (h : c.isDigit = true) : isBlank c = false := by
  obtain ⟨low, high⟩ := Char.isDigit_iff_toNat.mp h
  simp only [Char.reduceToNat] at low high
  simp [isBlank, blankRanges]
  omega

theorem valueBelow?_eq_some_iff {bound n : Nat} {digits : List Char} :
    valueBelow? bound digits = some n ↔ digits ≠ [] ∧ valueOf digits = n ∧ n < bound := by
  cases digits with
  | nil => simp [valueBelow?]
  | cons c cs =>
      simp only [valueBelow?, List.isEmpty_cons, Bool.false_eq_true, if_false]
      split <;> simp <;> omega

theorem skipPlus_split (cs : List Char) :
    ∃ sign, (sign = [] ∨ sign = ['+']) ∧ cs = sign ++ skipPlus cs := by
  unfold skipPlus
  split
  · exact ⟨['+'], .inr rfl, rfl⟩
  · exact ⟨[], .inl rfl, rfl⟩

theorem skipPlus_of_isDigit {c : Char} (h : c.isDigit = true) (cs : List Char) :
    skipPlus (c :: cs) = c :: cs := by
  unfold skipPlus
  split
  · rename_i same
    obtain ⟨rfl, -⟩ := List.cons.inj same
    exact absurd h (by decide)
  · rfl

theorem leadingUnsigned?_eq_some_iff {bound n : Nat} {cs : List Char} :
    leadingUnsigned? bound cs = some n ↔
      (skipPlus cs).takeWhile Char.isDigit ≠ [] ∧
        valueOf ((skipPlus cs).takeWhile Char.isDigit) = n ∧ n < bound :=
  valueBelow?_eq_some_iff

theorem leadingInteger?_eq_some_iff {literal : List Char} {value : UInt64} :
    leadingInteger? literal = some value ↔ Writes literal value := by
  constructor
  · intro read
    obtain ⟨n, unsigned, rfl⟩ := Option.map_eq_some_iff.mp read
    obtain ⟨nonempty, same, small⟩ := leadingUnsigned?_eq_some_iff.mp unsigned
    obtain ⟨sign, plus, split⟩ := skipPlus_split (literal.dropWhile isBlank)
    have whole : literal.takeWhile isBlank ++ sign ++
        (skipPlus (literal.dropWhile isBlank)).takeWhile Char.isDigit ++
        (skipPlus (literal.dropWhile isBlank)).dropWhile Char.isDigit = literal := by
      rw [List.append_assoc, List.takeWhile_append_dropWhile, List.append_assoc, ← split,
        List.takeWhile_append_dropWhile]
    rw [← whole]
    exact .intro of_mem_takeWhile plus nonempty of_mem_takeWhile head?_dropWhile_eq_false
      (same.trans (UInt64.toNat_ofNat_of_lt small).symm)
  · intro written
    cases written with
    | @intro blanks sign digits junk _ blank plus nonempty digit longest sameValue =>
        cases digits with
        | nil => exact absurd rfl nonempty
        | cons d ds =>
            -- The first digit is neither blank nor a plus sign, so each stage of the reader stops at it.
            have isDigit : d.isDigit = true := digit d List.mem_cons_self
            have trimmed : (blanks ++ sign ++ (d :: ds) ++ junk).dropWhile isBlank =
                sign ++ (d :: ds ++ junk) := by
              rw [List.append_assoc, List.append_assoc, List.dropWhile_append_of_pos blank]
              cases plus with
              | inl none => simp [none, isBlank_of_isDigit isDigit]
              | inr one => simp [one, show isBlank '+' = false by decide]
            have unsigned : skipPlus (sign ++ (d :: ds ++ junk)) = d :: ds ++ junk := by
              cases plus with
              | inl none =>
                  rw [none]
                  exact skipPlus_of_isDigit isDigit (ds ++ junk)
              | inr one =>
                  rw [one]
                  rfl
            rw [leadingInteger?, trimmed, leadingUnsigned?, unsigned,
              takeWhile_append_of_head digit longest,
              valueBelow?_eq_some_iff.mpr ⟨nonempty, sameValue, value.toNat_lt_size⟩]
            simp

theorem unsigned?_of_digits {bound : Nat} {digits : List Char} (nonempty : digits ≠ [])
    (digit : ∀ c ∈ digits, c.isDigit = true) : unsigned? bound digits = valueBelow? bound digits := by
  cases digits with
  | nil => exact absurd rfl nonempty
  | cons d ds =>
      rw [unsigned?, skipPlus_of_isDigit (digit d List.mem_cons_self), if_pos (List.all_eq_true.mpr digit)]

theorem leadingIntegerByOffset_eq (literal : List Char) :
    leadingIntegerByOffset literal = some (leadingInteger? literal) := by
  let trimmed := skipPlus (literal.dropWhile isBlank)
  have cut : cutAt? (offsetOf (!Char.isDigit ·) trimmed) trimmed =
      some (trimmed.takeWhile Char.isDigit) := by
    simpa using cutAt?_offsetOf (!Char.isDigit ·) trimmed
  have empty : offsetOf (!Char.isDigit ·) trimmed = 0 ↔ trimmed.takeWhile Char.isDigit = [] := by
    simpa using @offsetOf_eq_zero_iff (!Char.isDigit ·) trimmed
  show (match offsetOf (!Char.isDigit ·) trimmed with
    | 0 => some none
    | stop => (fun digits => UInt64.ofNat <$> unsigned? UInt64.size digits) <$> cutAt? stop trimmed) =
      some (UInt64.ofNat <$> valueBelow? UInt64.size (trimmed.takeWhile Char.isDigit))
  split
  · rename_i start
    rw [empty.mp start]
    rfl
  · rename_i stop inside
    have nonempty : trimmed.takeWhile Char.isDigit ≠ [] := fun none => inside (empty.mpr none)
    rw [cut, ← unsigned?_of_digits nonempty of_mem_takeWhile]
    rfl

/-! ## Tokens -/

theorem ofParts_splitOn (token : List Char) :
    MalformedRule.ofParts (token.splitOn '-') = report token := by
  rw [MalformedRule.ofParts, intercalate_splitOn_eq_map, report]

theorem ofToken_parts (token : List Char) :
    ofToken token = match token.splitOn '-' with
      | [literal] => (leadingInteger? literal).elim (.error (report token)) fun v => .ok (.digits v)
      | [low, high] => (intervalOf? low high).elim (.error (report token)) .ok
      | _ => .error (report token) := by
  rw [← ofParts_splitOn, ofToken]
  match token.splitOn '-' with
  | [] => rfl
  | [literal] =>
      simp only [ofDigitsParts, List.head?_cons, Option.getD_some]
      cases leadingInteger? literal <;> rfl
  | [_, _] => rfl
  | _ :: _ :: _ :: _ => rfl

theorem splitOn_hyphen_one {literal token : List Char} :
    token.splitOn '-' = [literal] ↔ '-' ∉ token ∧ literal = token := by
  rw [splitOn_eq_iff]
  constructor
  · intro ⟨_, free, join⟩
    obtain rfl : literal = token := by simpa using join
    exact ⟨free literal List.mem_cons_self, rfl⟩
  · intro ⟨free, same⟩
    subst same
    simpa using free

theorem splitOn_hyphen_two {low high token : List Char} :
    token.splitOn '-' = [low, high] ↔ '-' ∉ low ∧ '-' ∉ high ∧ low ++ '-' :: high = token := by
  rw [splitOn_eq_iff]
  simp [and_assoc]

theorem intervalOf?_eq_some_iff {low high : List Char} {rule : Rule} :
    intervalOf? low high = some rule ↔
      ∃ min max, Writes low min ∧ Writes high max ∧ min ≤ max ∧ rule = .interval min max := by
  simp only [← leadingInteger?_eq_some_iff, intervalOf?]
  cases leadingInteger? low with
  | none => simp
  | some min =>
      cases leadingInteger? high with
      | none => simp
      | some max =>
          simp only [Option.bind_eq_bind, Option.bind_some, interval?, Option.some.injEq]
          split
          · rename_i ordered
            constructor
            · intro same
              exact ⟨min, max, rfl, rfl, ordered, (Option.some.inj same).symm⟩
            · intro ⟨_, _, low, high, _, same⟩
              rw [same, low, high]
          · rename_i inverted
            constructor
            · intro refused
              cases refused
            · intro ⟨_, _, low, high, ordered, _⟩
              exact absurd (low ▸ high ▸ ordered) inverted

theorem ofToken_eq_ok_iff {token : List Char} {rule : Rule} :
    ofToken token = .ok rule ↔ IsToken token rule := by
  constructor
  · intro read
    rw [ofToken_parts] at read
    split at read
    · rename_i literal parts
      obtain ⟨free, rfl⟩ := splitOn_hyphen_one.mp parts
      cases integer : leadingInteger? literal with
      | none => simp [integer] at read
      | some value =>
          obtain rfl : Rule.digits value = rule := by simpa [integer] using read
          exact .digits free (leadingInteger?_eq_some_iff.mp integer)
    · rename_i low high parts
      obtain ⟨freeLow, freeHigh, rfl⟩ := splitOn_hyphen_two.mp parts
      cases interval : intervalOf? low high with
      | none => simp [interval] at read
      | some found =>
          obtain rfl : found = rule := by simpa [interval] using read
          obtain ⟨min, max, writesLow, writesHigh, ordered, rfl⟩ := intervalOf?_eq_some_iff.mp interval
          exact .interval freeLow freeHigh writesLow writesHigh ordered
    · cases read
  · intro isToken
    rw [ofToken_parts]
    cases isToken with
    | digits free writes =>
        simp [splitOn_hyphen_one.mpr ⟨free, rfl⟩, leadingInteger?_eq_some_iff.mpr writes]
    | interval freeLow freeHigh writesLow writesHigh ordered =>
        have read := intervalOf?_eq_some_iff.mpr ⟨_, _, writesLow, writesHigh, ordered, rfl⟩
        simp [splitOn_hyphen_two.mpr ⟨freeLow, freeHigh, rfl⟩, read]

theorem ofToken_eq_error_iff {token : List Char} {e : MalformedRule} :
    ofToken token = .error e ↔ (∀ rule, ¬ IsToken token rule) ∧ e = report token := by
  have refusal : ∀ e, ofToken token = .error e → e = report token := by
    intro e refused
    rw [ofToken_parts] at refused
    split at refused
    · rename_i literal _
      cases integer : leadingInteger? literal with
      | none => simpa [integer, eq_comm] using refused
      | some value => simp [integer] at refused
    · rename_i low high _
      cases interval : intervalOf? low high with
      | none => simpa [interval, eq_comm] using refused
      | some rule => simp [interval] at refused
    · exact (Except.error.inj refused).symm
  simp only [← ofToken_eq_ok_iff]
  cases read : ofToken token with
  | ok rule => simp
  | error found =>
      rw [refusal found read]
      simp [eq_comm]

theorem reported_report {token : List Char} (free : ',' ∉ token) : reported (report token) = token := by
  have back : ∀ c ∈ token, (if (if c = '-' then ',' else c) = ',' then '-' else
      if c = '-' then ',' else c) = c := by
    intro c member
    have noComma : c ≠ ',' := fun same => free (same ▸ member)
    by_cases hyphen : c = '-' <;> simp [hyphen, noComma]
  rw [reported, report, String.toList_ofList, List.map_map]
  exact (List.map_congr_left back).trans (List.map_id token)

/-! ## Texts -/

theorem ofTokens_append (left right : List (List Char)) :
    ofTokens (left ++ right) = ofTokens left ++ ofTokens right := by
  induction left with
  | nil => rfl
  | cons token left ih =>
      simp only [List.cons_append, ofTokens, ih]
      cases ofToken token <;> rfl

theorem length_ofTokens (tokens : List (List Char)) :
    (ofTokens tokens).rules.length + (ofTokens tokens).dropped.length = tokens.length := by
  induction tokens with
  | nil => rfl
  | cons token tokens ih =>
      rw [ofTokens, List.length_cons, ← ih]
      cases ofToken token with
      | ok rule => exact Nat.add_right_comm _ 1 _
      | error e => rfl

theorem mem_ofTokens_rules {rule : Rule} {tokens : List (List Char)} :
    rule ∈ (ofTokens tokens).rules ↔ ∃ token ∈ tokens, IsToken token rule := by
  simp only [← ofToken_eq_ok_iff]
  induction tokens with
  | nil => simp [ofTokens]
  | cons token tokens ih =>
      simp only [ofTokens, List.mem_cons, or_and_right, exists_or, exists_eq_left, ← ih]
      cases ofToken token with
      | ok found =>
          simp only [List.mem_cons, Except.ok.injEq]
          exact or_congr_left eq_comm
      | error e => simp

theorem reported_ofTokens {tokens : List (List Char)} (free : ∀ token ∈ tokens, ',' ∉ token) :
    (ofTokens tokens).dropped.map reported = tokens.filter fun token => !(ofToken token).isOk := by
  induction tokens with
  | nil => rfl
  | cons token tokens ih =>
      have rest := ih fun later member => free later (List.mem_cons_of_mem token member)
      rw [ofTokens, List.filter_cons]
      cases read : ofToken token with
      | ok rule => simpa [Except.isOk, Except.toBool] using rest
      | error e =>
          obtain rfl : e = report token := (ofToken_eq_error_iff.mp read).2
          simpa [Except.isOk, Except.toBool, reported_report (free token List.mem_cons_self)] using rest

end Rule

namespace RuleText

/-- The tokens of rule text, in order. -/
def tokens (text : String) : List (List Char) := text.toList.splitOn ','

theorem parse_append (left right : String) :
    parse (left ++ "," ++ right) = parse left ++ parse right := by
  have pieces : (left ++ "," ++ right).toList = left.toList ++ ',' :: right.toList := by simp
  rw [parse, pieces, List.splitOn_append_cons_self, Rule.ofTokens_append, parse, parse]

theorem parse_token {token : String} (free : ',' ∉ token.toList) :
    parse token = Rule.ofTokens [token.toList] := by
  rw [parse, List.splitOn_eq_singleton free]

theorem parse_token_eq_rule_iff {token : String} (free : ',' ∉ token.toList) {rule : Rule} :
    parse token = ⟨[rule], []⟩ ↔ Rule.IsToken token.toList rule := by
  rw [parse_token free, ← Rule.ofToken_eq_ok_iff, Rule.ofTokens]
  cases Rule.ofToken token.toList <;> simp [Rule.ofTokens]

theorem parse_token_eq_report_iff {token : String} (free : ',' ∉ token.toList) :
    parse token = ⟨[], [Rule.report token.toList]⟩ ↔ ∀ rule, ¬ Rule.IsToken token.toList rule := by
  have refused : Rule.ofToken token.toList = .error (Rule.report token.toList) ↔
      ∀ rule, ¬ Rule.IsToken token.toList rule :=
    Rule.ofToken_eq_error_iff.trans (and_iff_left rfl)
  rw [parse_token free, ← refused, Rule.ofTokens]
  cases Rule.ofToken token.toList <;> simp [Rule.ofTokens]

/-- Rule text is read token by token. A token is one rule or one report, as the grammar says, and a
    report gives its token back. No literal is ever cut inside a character. -/
theorem parse_accounts_for_tokens :
    (∀ left right, parse (left ++ "," ++ right) = parse left ++ parse right) ∧
    (∀ token : String, ',' ∉ token.toList →
      (∀ rule, parse token = ⟨[rule], []⟩ ↔ Rule.IsToken token.toList rule) ∧
      (parse token = ⟨[], [Rule.report token.toList]⟩ ↔ ∀ rule, ¬ Rule.IsToken token.toList rule)) ∧
    (∀ text, (parse text).rules.length + (parse text).dropped.length = text.toList.count ',' + 1) ∧
    (∀ text, (parse text).dropped.map Rule.reported =
      (tokens text).filter fun token => !(Rule.ofToken token).isOk) ∧
    (∀ literal, Rule.leadingIntegerByOffset literal = some (Rule.leadingInteger? literal)) := by
  refine ⟨parse_append, ?token, ?count, ?recovery, Rule.leadingIntegerByOffset_eq⟩
  case token =>
    intro token free
    exact ⟨fun _ => parse_token_eq_rule_iff free, parse_token_eq_report_iff free⟩
  case count =>
    intro text
    rw [parse, Rule.length_ofTokens, Text.length_splitOn]
  case recovery =>
    intro text
    exact Rule.reported_ofTokens fun _ member => Text.not_mem_of_mem_splitOn member

/-- An interval whose bounds carry white space, a plus sign, leading zeros and junk. -/
theorem parse_untidy_interval :
    ',' ∉ " +007x-9".toList ∧ parse " +007x-9" = ⟨[.interval 7 9], []⟩ := by
  have free : ',' ∉ " +007x-9".toList := by simp
  have token : Rule.IsToken [' ', '+', '0', '0', '7', 'x', '-', '9'] (.interval 7 9) :=
    Rule.ofToken_eq_ok_iff.mp rfl
  exact ⟨free, ((parse_accounts_for_tokens.2.1 " +007x-9" free).1 _).mpr (by simpa using token)⟩

end RuleText

end Paycard
