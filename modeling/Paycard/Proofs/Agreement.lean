import Paycard.Proofs.Dictionary.Agreement
import Paycard.Proofs.Scheme.Agreement

/-! # Both ways of reading texts

A text is read straight, or it is first taken as a value and that value is read. The two ways come to the
same, as long as no object in the text has a key twice. Then it does not matter in which order the members
of an object stand, nor what stands under names that nobody asks for.
-/

namespace Paycard

open Json (Tree Reading ReadAlike Overlooks Shape WritesPlainly Changed Rearranged)

/-! ## What a text may be read as -/

/-- What texts are read as: a rule, a scheme, a dictionary entry, or a list. -/
inductive Form where
  | rule
  | scheme
  | entry
  | list (item : Form)

namespace Form

/-- What is read. -/
def Content : Form → Type
  | .rule => Rule
  | .scheme => Scheme
  | .entry => Entry
  | .list form => List form.Content

/-- For what well-formed data is refused. -/
def Cause : Form → Type
  | .rule | .scheme => MalformedRule
  | .entry => Empty
  | .list form => form.Cause

def ofTree (room : Nat) : (form : Form) → Tree → Reading form.Cause form.Content
  | .rule => Rule.ofTree room
  | .scheme => Scheme.ofTree room
  | .entry => Entry.ofTree
  | .list form => Tree.readList (form.ofTree (room - 1))

/-- Converts a value that has been read before. -/
def ofJson : (form : Form) → Json → Reading form.Cause form.Content
  | .rule => Rule.ofJson
  | .scheme => Scheme.ofJson
  | .entry => Entry.ofJson
  | .list form => Json.readList form.ofJson

example (room : Nat) : (list .rule).ofTree room = Rule.listOfTree room ∧
    (list .rule).ofJson = Rule.listOfJson ∧ (list .scheme).ofTree room = Scheme.listOfTree room ∧
    (list .scheme).ofJson = Scheme.listOfJson := ⟨rfl, rfl, rfl, rfl⟩

/-- Reads straight from a text. -/
def ofText (form : Form) (text : String) : Reading form.Cause form.Content :=
  Json.readText (form.ofTree Json.maxDepth) text

def shape : Form → Shape
  | .rule => Rule.shape
  | .scheme => Scheme.shape
  | .entry => Entry.shape
  | .list form => .list form.shape

/-- The second text is the first one with more members in schemes, entries, rules and the contents of
    intervals, under names that these do not know. -/
def Widened (form : Form) : String → String → Prop := Changed (Tree.Widened form.shape)

theorem readAlike (form : Form) (room : Nat) : ReadAlike room (form.ofTree room) form.ofJson := by
  induction form generalizing room with
  | rule => exact Rule.readAlike_ofTree room
  | scheme => exact Scheme.readAlike_ofTree room
  | entry => exact Entry.readAlike_ofTree room
  | list form ih => exact Json.readAlike_readList (ih (room - 1))

theorem overlooks (form : Form) : Overlooks form.shape form.ofJson := by
  induction form with
  | rule => exact Rule.overlooks_ofJson
  | scheme => exact Scheme.overlooks_ofJson
  | entry => exact Entry.overlooks_ofJson
  | list form ih => exact Json.overlooks_readList ih

theorem sameOutcome_ofText (form : Form) {text : String} {value : Json} (writes : WritesPlainly text value) :
    SameOutcome (form.ofText text) (form.ofJson value) := by
  obtain ⟨tree, spells, plain, rfl⟩ := Json.writesPlainly_iff.mp writes
  rw [ofText, spells.readText_eq]
  exact form.readAlike Json.maxDepth tree plain

theorem Widened.ofJson_eq {form : Form} {text other : String} (widened : form.Widened text other)
    {value value' : Json} (writes : WritesPlainly text value) (writes' : WritesPlainly other value') :
    form.ofJson value' = form.ofJson value := by
  obtain ⟨tree, tree', spells, spells', more⟩ := widened
  obtain ⟨_, here, -, rfl⟩ := Json.writesPlainly_iff.mp writes
  obtain ⟨_, there, -, rfl⟩ := Json.writesPlainly_iff.mp writes'
  rw [here.unique spells, there.unique spells']
  exact (form.overlooks.of_widened more).symm

end Form

/-- A text without repeated keys is read straight as it is read by way of its value: both succeed with the
    same content or both fail. Both outcomes stay when members are put in another order anywhere in the
    text, and when members are added that the data does not know. -/
theorem reading_ways_agree (form : Form) {text : String} {value : Json} (writes : WritesPlainly text value) :
    SameOutcome (form.ofText text) (form.ofJson value) ∧
    (∀ other, Rearranged text other → WritesPlainly other value ∧
      SameOutcome (form.ofText other) (form.ofText text)) ∧
    (∀ other value', form.Widened text other → WritesPlainly other value' →
      form.ofJson value' = form.ofJson value ∧ SameOutcome (form.ofText other) (form.ofText text)) := by
  have straight := form.sameOutcome_ofText writes
  refine ⟨straight, ?rearranged, ?widened⟩
  case rearranged =>
    intro other rearranged
    have writes' := rearranged.writesPlainly writes
    exact ⟨writes', (form.sameOutcome_ofText writes').trans straight.symm⟩
  case widened =>
    intro other value' widened writes'
    have same := widened.ofJson_eq writes writes'
    refine ⟨same, (form.sameOutcome_ofText writes').trans ?_⟩
    rw [same]
    exact straight.symm

/-- An interval with its content before its kind and its upper bound before the lower one, the same with
    everything the other way round, and with members that no rule knows. -/
theorem reading_ways_agree_content_first :
    let value : Json := .array [.object [("value", .object [("max", .natural 49), ("min", .natural 40)]),
      ("type", .string "interval")]]
    let other : Json := .array [.object [("type", .string "interval"),
      ("value", .object [("min", .natural 40), ("max", .natural 49)])]]
    let wider : Json := .array [.object [("value", .object [("max", .natural 49), ("step", .natural 1),
      ("min", .natural 40)]), ("Type", .null), ("type", .string "interval")]]
    let rules : List Rule := [.interval 40 49]
    WritesPlainly value.render value.sorted ∧ (Form.list .rule).ofText value.render = .ok rules ∧
    Rearranged value.render other.render ∧ (Form.list .rule).ofText other.render = .ok rules ∧
    (Form.list .rule).Widened value.render wider.render ∧ WritesPlainly wider.render wider.sorted ∧
    (Form.list .rule).ofText wider.render = .ok rules := by
  intro value other wider rules
  have literal := Json.Number.isLiteral_natural
  have writable : value.Writable Json.maxDepth :=
    ⟨by decide, ⟨by decide, ⟨by decide, literal 49, literal 40, trivial⟩, trivial, trivial⟩, trivial⟩
  have writableOther : other.Writable Json.maxDepth :=
    ⟨by decide, ⟨by decide, trivial, ⟨by decide, literal 40, literal 49, trivial⟩, trivial⟩, trivial⟩
  have writableWider : wider.Writable Json.maxDepth :=
    ⟨by decide, ⟨by decide, ⟨by decide, literal 49, literal 1, literal 40, trivial⟩, trivial, trivial,
      trivial⟩, trivial⟩
  have writes : WritesPlainly value.render value.sorted :=
    Json.writesPlainly_render writable
      ⟨⟨by decide, ⟨by decide, trivial, trivial, trivial⟩, trivial, trivial⟩, trivial⟩
  have writesWider : WritesPlainly wider.render wider.sorted :=
    Json.writesPlainly_render writableWider
      ⟨⟨by decide, ⟨by decide, trivial, trivial, trivial, trivial⟩, trivial, trivial, trivial⟩, trivial⟩
  have rearranged : Rearranged value.render other.render := by
    let between : Json := .array [.object [("value", .object [("min", .natural 40), ("max", .natural 49)]),
      ("type", .string "interval")]]
    have bounds : Tree.Reordered value.toTree between.toTree :=
      @Tree.Reordered.item [] [] _ _ true (@Tree.Reordered.member [] _ _ _ _ true (.members (.swap ..)))
    have parts : Tree.Reordered between.toTree other.toTree :=
      @Tree.Reordered.item [] [] _ _ true (.members (.swap ..))
    exact ⟨_, _, Json.spells_render writable, Json.spells_render writableOther, .tail (.single bounds) parts⟩
  have widened : (Form.list .rule).Widened value.render wider.render := by
    let between : Json := .array [.object [("value", .object [("max", .natural 49), ("step", .natural 1),
      ("min", .natural 40)]), ("type", .string "interval")]]
    have bounds : Tree.Widened (Form.list .rule).shape value.toTree between.toTree := by
      refine @Tree.Widened.item _ [] [] _ _ true (@Tree.Widened.member _ [] _ "value" _ _ _ true rfl ?_)
      exact @Tree.Widened.here _ [_] [_] "step" _ true (by decide)
    have parts : Tree.Widened (Form.list .rule).shape between.toTree wider.toTree :=
      @Tree.Widened.item _ [] [] _ _ true (@Tree.Widened.here _ [_] [_] "Type" _ true (by decide))
    exact ⟨_, _, Json.spells_render writable, Json.spells_render writableWider, .tail (.single bounds) parts⟩
  have converts : (Form.list .rule).ofJson value.sorted = .ok rules := rfl
  obtain ⟨straight, rearranges, widens⟩ := reading_ways_agree (.list .rule) writes
  have reads := (straight rules).mpr converts
  obtain ⟨-, sameOther⟩ := rearranges _ rearranged
  obtain ⟨-, sameWider⟩ := widens _ _ widened writesWider
  exact ⟨writes, reads, rearranged, (sameOther rules).mpr reads, widened, writesWider,
    (sameWider rules).mpr reads⟩

end Paycard
