import Paycard.Json.Reading
import Paycard.Proofs.Results

/-! # What typed reading accepts

Each reader of typed data succeeds on exactly the values of its shape. What a reader of the parts sees to
holds of the parts of whatever is read, from a value and from a tree alike.
-/

namespace Paycard.Json

variable {ε α : Type}

theorem required_eq_ok_iff {found : Option α} {content : α} :
    (required found : Reading ε α) = .ok content ↔ found = some content := by
  cases found with
  | none => simp [required]
  | some _ => simp [required]

theorem readString_eq_ok_iff {value : Json} {text : String} :
    (readString value : Reading ε String) = .ok text ↔ value = .string text := by
  cases value with
  | string _ => simp [readString]
  | null | bool _ | number _ | array _ | object _ => simp [readString]

theorem readMember?_eq_ok_iff {members : List (String × Json)} {key : String}
    {read : Json → Reading ε α} {found : Option α} :
    readMember? members key read = .ok found ↔
      (members.lookup key = none ∧ found = none) ∨
        ∃ value content, members.lookup key = some value ∧ read value = .ok content ∧
          found = some content := by
  rw [readMember?]
  cases members.lookup key with
  | none => simp [eq_comm]
  | some value =>
      simp only [map_eq_ok_iff, reduceCtorEq, false_and, false_or, Option.some.injEq]
      constructor
      · rintro ⟨content, reads, rfl⟩
        exact ⟨value, content, rfl, reads, rfl⟩
      · rintro ⟨_, content, rfl, reads, rfl⟩
        exact ⟨content, reads, rfl⟩

theorem readMember?_string_eq_ok_iff {members : List (String × Json)} {key : String}
    {found : Option String} :
    (readMember? members key readString : Reading ε (Option String)) = .ok found ↔
      members.lookup key = found.map .string := by
  rw [readMember?_eq_ok_iff]
  simp only [readString_eq_ok_iff]
  cases found with
  | none => simp
  | some text => simp

theorem readItem_eq_ok_iff {read : Json → Reading ε α} {items rest : List Json} {content : α} :
    readItem read items = .ok (content, rest) ↔
      ∃ item, items = item :: rest ∧ read item = .ok content := by
  cases items with
  | nil => simp [readItem]
  | cons item items =>
      simp only [readItem, map_eq_ok_iff, Prod.mk.injEq, List.cons.injEq]
      constructor
      · rintro ⟨found, reads, rfl, rfl⟩
        exact ⟨item, ⟨rfl, rfl⟩, reads⟩
      · rintro ⟨_, ⟨rfl, rfl⟩, reads⟩
        exact ⟨content, reads, rfl, rfl⟩

theorem noItems_eq_ok_iff {items : List Json} {done : Unit} :
    (noItems items : Reading ε Unit) = .ok done ↔ items = [] := by
  cases items with
  | nil => simp [noItems]
  | cons item items => simp [noItems]

/-! ## What is read has the property that its readers see to -/

variable {P : α → Prop}

theorem yields_required {found : Option α} (holds : ∀ content ∈ found, P content) :
    Yields P (required found : Reading ε α) := by
  intro content there
  exact holds content (required_eq_ok_iff.mp there)

section Values

variable {read : Json → Reading ε α} (reads : ∀ value, Yields P (read value))
include reads

theorem yields_readMember? (members : List (String × Json)) (key : String) :
    Yields (fun found => ∀ content ∈ found, P content) (readMember? members key read) := by
  intro found there
  rcases readMember?_eq_ok_iff.mp there with ⟨-, rfl⟩ | ⟨value, content, -, here, rfl⟩
  · simp
  · simpa using reads value content here

theorem yields_readItem (items : List Json) :
    Yields (fun found => P found.1) (readItem read items) := by
  rintro ⟨content, rest⟩ there
  obtain ⟨item, -, here⟩ := readItem_eq_ok_iff.mp there
  exact reads item content here

theorem yields_readList (value : Json) :
    Yields (fun contents => ∀ content ∈ contents, P content) (readList read value) := by
  cases value with
  | array items => exact yields_mapM reads items
  | null | bool _ | number _ | string _ | object _ => exact yields_error _

end Values

namespace Tree

/-- What every member keeps of a draft holds of the draft at the end. -/
theorem yields_readMembers {σ : Type} {Inv : σ → Prop} {step : σ → String → Tree → Reading ε σ}
    (keeps : ∀ draft key value, Inv draft → Yields Inv (step draft key value)) {draft : σ}
    (starts : Inv draft) (members : List (Option String × Tree)) :
    Yields Inv (readMembers step draft members) := by
  induction members generalizing draft with
  | nil => exact yields_ok starts
  | cons member members ih =>
      obtain ⟨key, value⟩ := member
      cases key with
      | none => exact yields_error _
      | some key => exact (keeps draft key value starts).bind fun _ holds => ih holds

theorem yields_readObject {σ : Type} {Inv : σ → Prop} {step : σ → String → Tree → Reading ε σ}
    (keeps : ∀ draft key value, Inv draft → Yields Inv (step draft key value)) {draft : σ}
    (starts : Inv draft) (members : List (Option String × Tree)) (closed : Bool) :
    Yields Inv (readObject step draft members closed) := by
  refine (yields_readMembers keeps starts members).bind fun whole holds => ?_
  exact yields_bind fun _ => yields_ok holds

section Trees

variable {read : Tree → Reading ε α} (reads : ∀ tree, Yields P (read tree))
include reads

theorem yields_readOnce (earlier : Option α) (tree : Tree) :
    Yields (fun found => ∀ content ∈ found, P content) (readOnce earlier read tree) := by
  cases earlier with
  | some content => exact yields_error _
  | none => exact (reads tree).map (by simp)

theorem yields_readItem (closed : Bool) (items : List Tree) :
    Yields (fun found => P found.1) (readItem read closed items) := by
  have first : Yields (fun found => ∀ content ∈ found.1, P content) (readItem? read closed items) := by
    cases items with
    | nil => exact yields_bind fun _ => yields_ok (by simp)
    | cons item items => exact (reads item).map (by simp)
  refine first.bind fun found holds => ?_
  exact (yields_required holds).bind fun _ holds => yields_ok holds

theorem yields_readList (tree : Tree) :
    Yields (fun contents => ∀ content ∈ contents, P content) (readList read tree) := by
  cases tree with
  | array items closed =>
      refine (yields_mapM reads items).bind fun contents hold => ?_
      exact yields_bind fun _ => yields_ok hold
  | null | bool _ | number _ | string _ | object _ _ | broken => exact yields_error _

end Trees

end Tree

theorem yields_readText {read : Tree → Reading ε α} (reads : ∀ tree, Yields P (read tree)) (text : String) :
    Yields P (readText read text) := by
  refine (reads _).bind fun content holds => ?_
  -- Whether anything comes after the value decides only between this content and a failure.
  split
  · exact yields_ok holds
  · exact yields_error _

end Paycard.Json
