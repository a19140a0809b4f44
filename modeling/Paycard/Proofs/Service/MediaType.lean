import Paycard.Proofs.Text.Pieces
import Paycard.Service.MediaType

/-! # Which headers say JSON

The grammar of the media types that mean JSON. The reader of parameters is a machine; what may follow each
of its states (`Follows`) joins it to the grammar.
-/

namespace Paycard.Service

/-! ## The grammar -/

/-- A letter, a digit or one of these marks. -/
def IsTokenChar (c : Char) : Prop :=
  c.isAlphanum = true ∨ c ∈ ['!', '#', '$', '%', '&', '\'', '+', '-', '.', '^', '_', '\x60', '|', '~']

/-- A type, a subtype, a name or a plain value: one or more characters of a token. -/
structure IsToken (cs : List Char) : Prop where
  nonempty : cs ≠ []
  chars : ∀ c ∈ cs, IsTokenChar c

/-- A character that may stand between quotes. -/
def IsQuotable (c : Char) : Prop := ' ' ≤ c ∧ c ≠ '\x7f'

/-- The value of a parameter. Something stands between the quotes, and only its first character may be a quote
    itself. Spaces may come behind them. -/
inductive ParameterValue : List Char → Prop where
  | word {word : List Char} : IsToken word → ParameterValue word
  | quoted {first : Char} {content : List Char} (spaces : Nat) : IsQuotable first →
      (∀ c ∈ content, IsQuotable c ∧ c ≠ '\"') →
      ParameterValue ('\"' :: first :: (content ++ '\"' :: List.replicate spaces ' '))

/-- Parameters with semicolons between them. The last one may have no value, and nothing need come behind a
    semicolon. -/
inductive Parameters : List Char → Prop where
  | nothing : Parameters []
  | space {cs : List Char} : Parameters cs → Parameters (' ' :: cs)
  | unfinished {name : List Char} : IsToken name → Parameters (name ++ ['='])
  | last {name value : List Char} : IsToken name → ParameterValue value → Parameters (name ++ '=' :: value)
  | more {name value rest : List Char} : IsToken name → ParameterValue value → Parameters rest →
      Parameters (name ++ '=' :: (value ++ ';' :: rest))

/-- What may come behind a subtype or the value of a parameter. -/
def Trails (parameters : List Char) : Prop :=
  parameters = [] ∨ ∃ rest, parameters = ';' :: rest ∧ Parameters rest

/-- A subtype that means JSON: `json` with or without a suffix, or another one with this suffix. -/
inductive JsonSubtype : List Char → Prop where
  | json : JsonSubtype "json".toList
  | withSuffix {suffix : List Char} : '+' ∉ suffix → JsonSubtype ("json".toList ++ '+' :: suffix)
  | asSuffix {front : List Char} : front ≠ [] → JsonSubtype (front ++ '+' :: "json".toList)

/-- A header that says that the body is JSON. Letter case does not matter in the type and the subtype. -/
def NamesJson (header : String) : Prop :=
  ∃ type subtype parameters, header.toList = type ++ '/' :: (subtype ++ parameters) ∧
    (∀ c ∈ header.toList, ' ' ≤ c ∧ c ≤ '~') ∧
    IsToken type ∧ type.map Char.toLower = "application".toList ∧
    IsToken subtype ∧ JsonSubtype (subtype.map Char.toLower) ∧
    Trails parameters

/-! ## Parameters -/

/-- Characters of one kind, and then what may come behind them. -/
def Run (kind : Char → Prop) (behind : List Char → Prop) (cs : List Char) : Prop :=
  ∃ front rest, cs = front ++ rest ∧ (∀ c ∈ front, kind c) ∧ behind rest

section Run

variable {kind : Char → Prop} {behind : List Char → Prop}

theorem run_nil : Run kind behind [] ↔ behind [] := by
  constructor
  · rintro ⟨front, rest, same, -, holds⟩
    obtain ⟨rfl, rfl⟩ := List.append_eq_nil_iff.mp same.symm
    exact holds
  · intro holds
    exact ⟨[], [], rfl, by simp, holds⟩

theorem run_cons {c : Char} {cs : List Char} :
    Run kind behind (c :: cs) ↔ kind c ∧ Run kind behind cs ∨ behind (c :: cs) := by
  constructor
  · rintro ⟨front, rest, same, all, holds⟩
    cases front with
    | nil =>
        rw [List.nil_append] at same
        exact .inr (same ▸ holds)
    | cons d front =>
        obtain ⟨rfl, rfl⟩ := List.cons.inj same
        obtain ⟨here, later⟩ := List.forall_mem_cons.mp all
        exact .inl ⟨here, front, rest, rfl, later, holds⟩
  · rintro (⟨here, front, rest, rfl, later, holds⟩ | holds)
    · exact ⟨c :: front, rest, rfl, List.forall_mem_cons.mpr ⟨here, later⟩, holds⟩
    · exact ⟨[], c :: cs, rfl, by simp, holds⟩

end Run

/-- What may come behind the equals sign of a parameter. -/
def Valued (cs : List Char) : Prop :=
  cs = [] ∨ ∃ value rest, cs = value ++ rest ∧ ParameterValue value ∧ Trails rest

/-- What may follow a state of the machine. -/
def Follows : ParameterState → List Char → Prop
  | .start => Parameters
  | .name => Run IsTokenChar fun cs => ∃ rest, cs = '=' :: rest ∧ Valued rest
  | .valueStart => Valued
  | .value => Run IsTokenChar Trails
  | .quoted true => fun cs => ∃ first rest, cs = first :: rest ∧ IsQuotable first ∧
      Run (fun c => IsQuotable c ∧ c ≠ '\"') (fun cs => ∃ rest, cs = '\"' :: rest ∧ Run (· = ' ') Trails rest) rest
  | .quoted false =>
      Run (fun c => IsQuotable c ∧ c ≠ '\"') fun cs => ∃ rest, cs = '\"' :: rest ∧ Run (· = ' ') Trails rest
  | .afterQuote => Run (· = ' ') Trails

theorem parameters_iff {cs : List Char} : Parameters cs ↔
    cs = [] ∨ (∃ rest, cs = ' ' :: rest ∧ Parameters rest) ∨
      ∃ name rest, cs = name ++ '=' :: rest ∧ IsToken name ∧ Valued rest := by
  constructor
  · intro parameters
    cases parameters with
    | nothing => exact .inl rfl
    | space rest => exact .inr (.inl ⟨_, rfl, rest⟩)
    | unfinished name => exact .inr (.inr ⟨_, [], rfl, name, .inl rfl⟩)
    | @last _ value name valued =>
        exact .inr (.inr ⟨_, value, rfl, name, .inr ⟨value, [], (List.append_nil _).symm, valued, .inl rfl⟩⟩)
    | more name valued rest =>
        exact .inr (.inr ⟨_, _, rfl, name, .inr ⟨_, _, rfl, valued, .inr ⟨_, rfl, rest⟩⟩⟩)
  · rintro (rfl | ⟨rest, rfl, parameters⟩ | ⟨name, rest, rfl, token, valued⟩)
    · exact .nothing
    · exact .space parameters
    · rcases valued with rfl | ⟨value, rest, rfl, valued, rfl | ⟨rest, rfl, parameters⟩⟩
      · exact .unfinished token
      · rw [List.append_nil]
        exact .last token valued
      · exact .more token valued parameters

theorem isTokenChar_iff {c : Char} : isTokenChar c = true ↔ IsTokenChar c := by
  rw [isTokenChar, Bool.or_eq_true, List.contains_iff_mem]
  rfl

/-- A token and what comes behind it. -/
theorem exists_token_iff {behind : List Char → Prop} {c : Char} {cs : List Char} :
    (∃ name rest, c :: cs = name ++ rest ∧ IsToken name ∧ behind rest) ↔
      IsTokenChar c ∧ Run IsTokenChar behind cs := by
  constructor
  · rintro ⟨name, rest, same, ⟨nonempty, chars⟩, holds⟩
    obtain ⟨d, more, rfl⟩ := List.exists_cons_of_ne_nil nonempty
    obtain ⟨rfl, rfl⟩ := List.cons.inj same
    obtain ⟨here, later⟩ := List.forall_mem_cons.mp chars
    exact ⟨here, more, rest, rfl, later, holds⟩
  · rintro ⟨here, more, rest, rfl, later, holds⟩
    exact ⟨c :: more, rest, rfl, ⟨List.cons_ne_nil _ _, List.forall_mem_cons.mpr ⟨here, later⟩⟩, holds⟩

theorem parameters_cons_iff {c : Char} {cs : List Char} : Parameters (c :: cs) ↔
    c = ' ' ∧ Follows .start cs ∨ IsTokenChar c ∧ Follows .name cs := by
  have named : (∃ name rest, c :: cs = name ++ '=' :: rest ∧ IsToken name ∧ Valued rest) ↔
      ∃ name rest, c :: cs = name ++ rest ∧ IsToken name ∧ ∃ after, rest = '=' :: after ∧ Valued after := by
    constructor
    · rintro ⟨name, rest, same, token, valued⟩
      exact ⟨name, _, same, token, rest, rfl, valued⟩
    · rintro ⟨name, _, same, token, rest, rfl, valued⟩
      exact ⟨name, rest, same, token, valued⟩
  rw [parameters_iff, named, exists_token_iff, Follows, Follows]
  simp [and_assoc]

theorem follows_quoted_iff {c : Char} {cs : List Char} :
    Follows (.quoted false) (c :: cs) ↔
      (IsQuotable c ∧ c ≠ '\"') ∧ Follows (.quoted false) cs ∨ c = '\"' ∧ Follows .afterQuote cs := by
  rw [Follows, run_cons, Follows]
  simp [and_assoc]

theorem valued_cons_iff {c : Char} {cs : List Char} : Valued (c :: cs) ↔
    IsTokenChar c ∧ Follows .value cs ∨ c = '\"' ∧ Follows (.quoted true) cs := by
  rw [Follows, Follows, ← exists_token_iff, Valued]
  constructor
  · rintro (empty | ⟨value, rest, same, valued, ends⟩)
    · cases empty
    · cases valued with
      | word token => exact .inl ⟨value, rest, same, token, ends⟩
      | @quoted first content spaces quotable inner =>
          obtain ⟨rfl, rfl⟩ := List.cons.inj same
          exact .inr ⟨rfl, first, _, rfl, quotable, content, _, List.append_assoc _ _ _, inner, _, rfl,
            List.replicate spaces ' ', rest, rfl, fun c member => List.eq_of_mem_replicate member, ends⟩
  · rintro (⟨name, rest, same, token, ends⟩ |
      ⟨rfl, first, _, rfl, quotable, content, _, rfl, inner, _, rfl, front, rest, rfl, spaces, ends⟩)
    · exact .inr ⟨name, rest, same, .word token, ends⟩
    · have blank : List.replicate front.length ' ' = front := (List.eq_replicate_of_mem spaces).symm
      refine .inr ⟨_, rest, ?_, .quoted front.length quotable inner, ends⟩
      simp [blank]

theorem trails_cons_iff {c : Char} {cs : List Char} : Trails (c :: cs) ↔ c = ';' ∧ Follows .start cs := by
  simp [Trails, Follows, and_assoc]

/-- The states that a choice of the machine leads to. -/
theorem exists_ite_iff {choice : Prop} [Decidable choice] {state : ParameterState}
    {other : Option ParameterState} {P : ParameterState → Prop} :
    (∃ next, (if choice then some state else other) = some next ∧ P next) ↔
      choice ∧ P state ∨ ¬ choice ∧ ∃ next, other = some next ∧ P next := by
  by_cases chosen : choice <;> simp [chosen]

/-- What may follow a state starts with a character that the machine takes there. -/
theorem follows_cons_iff {state : ParameterState} {c : Char} {cs : List Char} :
    Follows state (c :: cs) ↔ ∃ next, state.next? c = some next ∧ Follows next cs := by
  have mark {d : Char} (noToken : isTokenChar d = false) : IsTokenChar c → c ≠ d := by
    rintro token rfl
    rw [isTokenChar_iff.mpr token] at noToken
    cases noToken
  have space := mark (d := ' ') (by decide)
  have equals := mark (d := '=') (by decide)
  have quote := mark (d := '\"') (by decide)
  have semicolon := mark (d := ';') (by decide)
  cases state with
  | start =>
      have follows : Follows .start (c :: cs) ↔ _ := parameters_cons_iff
      simp only [follows, ParameterState.next?, exists_ite_iff, isTokenChar_iff]
      grind
  | name =>
      have follows : Follows .name (c :: cs) ↔
          IsTokenChar c ∧ Follows .name cs ∨ c = '=' ∧ Follows .valueStart cs := by
        rw [Follows, run_cons, Follows]
        simp [and_assoc]
      simp only [follows, ParameterState.next?, exists_ite_iff, isTokenChar_iff]
      grind
  | valueStart =>
      have follows : Follows .valueStart (c :: cs) ↔ _ := valued_cons_iff
      simp only [follows, ParameterState.next?, exists_ite_iff, isTokenChar_iff]
      grind
  | value =>
      have follows : Follows .value (c :: cs) ↔
          IsTokenChar c ∧ Follows .value cs ∨ c = ';' ∧ Follows .start cs :=
        run_cons.trans (or_congr_right trails_cons_iff)
      simp only [follows, ParameterState.next?, exists_ite_iff, isTokenChar_iff]
      grind
  | quoted isEmpty =>
      cases isEmpty with
      | true =>
          have follows : Follows (.quoted true) (c :: cs) ↔ IsQuotable c ∧ Follows (.quoted false) cs := by
            simp [Follows, and_assoc]
          simp only [follows, ParameterState.next?, exists_ite_iff, IsQuotable]
          grind
      | false =>
          simp only [follows_quoted_iff, ParameterState.next?, exists_ite_iff, IsQuotable]
          grind
  | afterQuote =>
      have follows : Follows .afterQuote (c :: cs) ↔
          c = ' ' ∧ Follows .afterQuote cs ∨ c = ';' ∧ Follows .start cs :=
        run_cons.trans (or_congr_right trails_cons_iff)
      simp only [follows, ParameterState.next?, exists_ite_iff]
      grind

theorem canEnd_iff {state : ParameterState} : state.canEnd = true ↔ Follows state [] := by
  have ends : Trails [] := .inl rfl
  cases state with
  | start => exact iff_of_true rfl .nothing
  | valueStart => exact iff_of_true rfl (.inl rfl)
  | name => simp [ParameterState.canEnd, Follows, run_nil]
  | value => exact iff_of_true rfl (run_nil.mpr ends)
  | quoted isEmpty => cases isEmpty <;> simp [ParameterState.canEnd, Follows, run_nil]
  | afterQuote => exact iff_of_true rfl (run_nil.mpr ends)

theorem follows_iff {state : ParameterState} {cs : List Char} :
    (∃ last, cs.foldlM ParameterState.next? state = some last ∧ last.canEnd = true) ↔ Follows state cs := by
  induction cs generalizing state with
  | nil => simp [canEnd_iff]
  | cons c cs ih =>
      rw [follows_cons_iff, List.foldlM_cons]
      cases state.next? c with
      | none => simp
      | some next => simp [ih]

theorem areParameters_iff {cs : List Char} : areParameters cs = true ↔ Parameters cs := by
  have follows : _ ↔ Parameters cs := @follows_iff .start cs
  rw [← follows, areParameters]
  cases cs.foldlM ParameterState.next? .start with
  | none => simp
  | some last => simp

/-! ## The subtype -/

namespace MediaType

theorem suffixed_append {plain suffix : List Char} (nonempty : plain ≠ []) (last : '+' ∉ suffix) :
    suffixed (plain ++ '+' :: suffix) = (plain, some suffix) := by
  have fromEnd : (plain ++ '+' :: suffix).reverse = suffix.reverse ++ '+' :: plain.reverse := by simp
  have free : ∀ c ∈ suffix.reverse, decide (c ≠ '+') = true := by
    intro c member
    rw [List.mem_reverse] at member
    exact decide_eq_true fun same => last (same ▸ member)
  obtain ⟨c, before, spelled⟩ := List.exists_cons_of_ne_nil (mt List.reverse_eq_nil_iff.mp nonempty)
  have plain : (c :: before).reverse = plain := by rw [← spelled, List.reverse_reverse]
  unfold suffixed
  simp only [fromEnd, spelled, List.dropWhile_append_of_pos free, List.takeWhile_append_of_pos free]
  simp [plain]

/-- A subtype without a plus sign behind its first character has no suffix. -/
theorem suffixed_cases (subtype : List Char) :
    suffixed subtype = (subtype, none) ∨
      ∃ plain suffix, plain ≠ [] ∧ '+' ∉ suffix ∧ subtype = plain ++ '+' :: suffix := by
  let isOther (c : Char) : Bool := decide (c ≠ '+')
  rcases cut : subtype.reverse.dropWhile isOther with _ | ⟨plus, _ | ⟨c, before⟩⟩
  · exact .inl (by simp only [suffixed]; rw [cut])
  · exact .inl (by simp only [suffixed]; rw [cut])
  · have sign : plus = '+' := by
      have stopped := Text.head?_dropWhile_eq_false plus (by rw [cut]; rfl)
      simpa [isOther] using stopped
    have whole := @List.takeWhile_append_dropWhile _ isOther subtype.reverse
    rw [cut, sign] at whole
    have spelled := congrArg List.reverse whole
    rw [List.reverse_reverse, List.reverse_append, List.reverse_cons, List.append_assoc] at spelled
    refine .inr ⟨(c :: before).reverse, _, by simp, ?_, spelled.symm⟩
    intro member
    have other := Text.of_mem_takeWhile '+' (List.mem_reverse.mp member)
    simp [isOther] at other

theorem isJson_iff {media : MediaType} :
    media.isJson = true ↔ media.type = "application".toList ∧ JsonSubtype media.subtype := by
  obtain ⟨type, subtype⟩ := media
  have named : (suffixed subtype).1 = "json".toList ∨ (suffixed subtype).2 = some "json".toList ↔
      JsonSubtype subtype := by
    constructor
    · rcases suffixed_cases subtype with whole | ⟨plain, suffix, nonempty, last, rfl⟩
      · rw [whole]
        rintro (rfl | suffix)
        · exact .json
        · cases suffix
      · rw [suffixed_append nonempty last]
        rintro (rfl | json)
        · exact .withSuffix last
        · rw [Option.some.inj json]
          exact .asSuffix nonempty
    · rintro (_ | last | nonempty)
      · exact .inl rfl
      · exact .inl (by rw [suffixed_append (by decide) last])
      · exact .inr (by rw [suffixed_append nonempty (by decide)])
  simp only [isJson, Bool.and_eq_true, Bool.or_eq_true, decide_eq_true_eq, named]

end MediaType

theorem JsonSubtype.ne_nil {subtype : List Char} (means : JsonSubtype subtype) : subtype ≠ [] := by
  cases means with
  | json => decide
  | withSuffix _ => simp
  | asSuffix _ => simp

/-! ## The header -/

theorem takeWhile_and_dropWhile {front rest : List Char} (token : ∀ c ∈ front, IsTokenChar c)
    (stop : ∀ c ∈ rest.head?, isTokenChar c = false) :
    (front ++ rest).takeWhile isTokenChar = front ∧ (front ++ rest).dropWhile isTokenChar = rest := by
  have run := Text.takeWhile_append_of_head (fun c member => isTokenChar_iff.mpr (token c member)) stop
  have whole := @List.takeWhile_append_dropWhile _ isTokenChar (front ++ rest)
  rw [run] at whole
  exact ⟨run, List.append_cancel_left whole⟩

theorem ofHeader?_of_parts {text : String} {type subtype parameters : List Char}
    (spelled : text.toList = type ++ '/' :: (subtype ++ parameters))
    (printable : ∀ c ∈ text.toList, ' ' ≤ c ∧ c ≤ '~') (first : IsToken type) (second : IsToken subtype)
    (trails : Trails parameters) :
    MediaType.ofHeader? text = some ⟨type.map Char.toLower, subtype.map Char.toLower⟩ := by
  have all : (text.toList.all fun c => ' ' ≤ c && c ≤ '~') = true := by
    simpa [List.all_eq_true] using printable
  have slash : ∀ c ∈ ('/' :: (subtype ++ parameters)).head?, isTokenChar c = false := by
    rintro c ⟨⟩
    decide
  have stop : ∀ c ∈ parameters.head?, isTokenChar c = false := by
    rcases trails with rfl | ⟨rest, rfl, -⟩
    · simp
    · rintro c ⟨⟩
      decide
  obtain ⟨taken, left⟩ := takeWhile_and_dropWhile first.chars slash
  obtain ⟨taken', left'⟩ := takeWhile_and_dropWhile second.chars stop
  have nonempty : type.isEmpty = false := List.isEmpty_eq_false_iff.mpr first.nonempty
  have nonempty' : subtype.isEmpty = false := List.isEmpty_eq_false_iff.mpr second.nonempty
  unfold MediaType.ofHeader?
  rw [spelled] at all ⊢
  simp only [all, left, taken, left', taken', nonempty, nonempty']
  rcases trails with rfl | ⟨rest, rfl, parameters⟩
  · simp
  · simp [areParameters_iff.mpr parameters]

theorem exists_parts_of_ofHeader? {text : String} {media : MediaType}
    (read : MediaType.ofHeader? text = some media) : ∃ type subtype parameters,
      text.toList = type ++ '/' :: (subtype ++ parameters) ∧ (∀ c ∈ text.toList, ' ' ≤ c ∧ c ≤ '~') ∧
      IsToken type ∧ (∀ c ∈ subtype, IsTokenChar c) ∧ Trails parameters ∧
      media = ⟨type.map Char.toLower, subtype.map Char.toLower⟩ := by
  unfold MediaType.ofHeader? at read
  simp only at read
  split at read
  · cases read
  rename_i printable
  have printable : ∀ c ∈ text.toList, ' ' ≤ c ∧ c ≤ '~' := by
    simpa [List.all_eq_true] using printable
  split at read
  case h_2 => cases read
  case h_1 after slash =>
    have spelled := @List.takeWhile_append_dropWhile _ isTokenChar text.toList
    have spelled' := @List.takeWhile_append_dropWhile _ isTokenChar after
    rw [slash, ← spelled'] at spelled
    simp only [Option.ite_none_right_eq_some, Bool.and_eq_true, Bool.not_eq_true', Option.some.injEq] at read
    obtain ⟨⟨nonempty, trails⟩, same⟩ := read
    have taken {cs : List Char} : ∀ c ∈ cs.takeWhile isTokenChar, IsTokenChar c :=
      fun c member => isTokenChar_iff.mp (Text.of_mem_takeWhile c member)
    refine ⟨_, _, _, spelled.symm, printable, ⟨List.isEmpty_eq_false_iff.mp nonempty, taken⟩, taken, ?_,
      same.symm⟩
    split at trails
    · rename_i nothing
      exact .inl nothing
    · rename_i rest semicolon
      rw [Bool.and_eq_true] at trails
      exact .inr ⟨rest, semicolon, areParameters_iff.mp trails.2⟩
    · cases trails

/-- A body is taken for JSON if the header is there and names a media type that means JSON. -/
theorem saysJson_iff {header : Option String} :
    saysJson header = true ↔ ∃ text, header = some text ∧ NamesJson text := by
  cases header with
  | none => simp [saysJson]
  | some text =>
      simp only [Option.some.injEq, exists_eq_left']
      constructor
      · intro accepted
        rw [saysJson, Option.bind_some] at accepted
        cases read : MediaType.ofHeader? text with
        | none => simp [read] at accepted
        | some media =>
            rw [read] at accepted
            obtain ⟨type, subtype, parameters, spelled, printable, first, chars, trails, rfl⟩ :=
              exists_parts_of_ofHeader? read
            obtain ⟨application, means⟩ := MediaType.isJson_iff.mp accepted
            have second : IsToken subtype := ⟨mt List.map_eq_nil_iff.mpr means.ne_nil, chars⟩
            exact ⟨type, subtype, parameters, spelled, printable, first, application, second, means, trails⟩
      · rintro ⟨type, subtype, parameters, spelled, printable, first, application, second, means, trails⟩
        rw [saysJson, Option.bind_some, ofHeader?_of_parts spelled printable first second trails]
        exact MediaType.isJson_iff.mpr ⟨application, means⟩

end Paycard.Service
