import Paycard.Proofs.Dictionary.Envelope
import Paycard.Proofs.Scheme.Wire

/-! # Writing and reading dictionaries

A dictionary that is written from schemes is read back as these schemes, if the bounds of all their
intervals are in order. The items of a dictionary are read one by one, and one bad item spoils it.
-/

namespace Paycard

theorem Rule.parse_renderAll_of_ordered {rules : List Rule} (h : ∀ rule ∈ rules, rule.ordered = true) :
    Rule.parse (renderAll rules) = rules := by
  rw [Rule.parse, parse_renderAll]
  exact List.filter_eq_self.mpr h

namespace Entry

theorem scheme_ofScheme {scheme : Scheme} (h : ∀ rule ∈ scheme.rules, rule.ordered = true) :
    (ofScheme scheme).scheme = scheme := by
  obtain ⟨lengths, ranges⟩ := List.forall_mem_append.mp h
  simp only [Entry.scheme, ofScheme, Rule.parse_renderAll_of_ordered lengths,
    Rule.parse_renderAll_of_ordered ranges]

theorem writes_sorted_toJson (entry : Entry) : Writes entry.toJson.sorted entry := by
  have found (before : List (String × Json)) (key text : String) (after : List (String × Json))
      (last : ∀ member ∈ after, member.1 ≠ key) := @Json.lookup_sorted before after key (.string text) last
  rw [toJson, Json.sorted]
  apply Writes.object
  constructor
  · exact found [] "id" entry.id _ (by simp)
  · exact found [_] "name" entry.name _ (by simp)
  · exact found [_, _] "ranges" entry.ranges _ (by simp)
  · exact found [_, _, _] "length" entry.length _ (by simp)
  · exact .inl (found [_, _, _, _] "icon" entry.icon _ (by simp))

theorem writableItems_toJson (entries : List Entry) {room : Nat} (within : 0 < room) :
    Json.WritableItems room (entries.map toJson) := by
  induction entries with
  | nil => trivial
  | cons entry entries ih => exact ⟨⟨within, trivial, trivial, trivial, trivial, trivial, trivial⟩, ih⟩

end Entry

namespace Dictionary

variable {before after : List (String × Json)}

/-- Whatever other members stand beside the entries, a dictionary is read from its text as the schemes of
    its entries. -/
theorem ofText_render (entries : List Entry)
    (writable : (Json.object (before ++ ("data", .array (entries.map Entry.toJson)) :: after)).Writable
      Json.maxDepth) (last : ∀ member ∈ after, member.1 ≠ "data") :
    ofText (Json.object (before ++ ("data", .array (entries.map Entry.toJson)) :: after)).render =
      .ok (entries.map Entry.scheme) := by
  rw [ofText, Json.ofText?_render writable]
  refine ofJson_eq_ok_iff.mpr ⟨(entries.map Entry.toJson).map Json.sorted, entries, ?_, ?_, rfl⟩
  · refine ⟨_, rfl, ?_⟩
    rw [Json.lookup_sorted _ last, Json.sorted, Json.sortedItems_eq_map]
  · rw [List.map_map, List.forall₂_map_left_iff]
    exact List.forall₂_same.mpr fun entry _ => entry.writes_sorted_toJson

theorem schemesOfItems_append_eq_ok_iff {items others : List Json} {schemes : List Scheme} :
    schemesOfItems (items ++ others) = .ok schemes ↔ ∃ first last,
      schemesOfItems items = .ok first ∧ schemesOfItems others = .ok last ∧ schemes = first ++ last := by
  simp only [schemesOfItems_eq_ok_iff, mapM_append_eq_ok_iff]
  constructor
  · rintro ⟨_, ⟨entries, more, reads, readsMore, rfl⟩, rfl⟩
    exact ⟨_, _, ⟨entries, reads, rfl⟩, ⟨more, readsMore, rfl⟩, List.map_append⟩
  · rintro ⟨_, _, ⟨entries, reads, rfl⟩, ⟨more, readsMore, rfl⟩, rfl⟩
    exact ⟨entries ++ more, ⟨entries, more, reads, readsMore, rfl⟩, List.map_append.symm⟩

theorem ofJson_of_bad_item {value item : Json} {items : List Json} (holds : Holds value items)
    (member : item ∈ items) (bad : ∀ entry, Entry.ofJson item ≠ .ok entry) : ofJson value = .error {} := by
  cases read : ofJson value with
  | error e => rfl
  | ok schemes =>
      rw [ofJson_of_holds holds, schemesOfItems_eq_ok_iff] at read
      obtain ⟨entries, reads, -⟩ := read
      obtain ⟨entry, good⟩ := exists_of_mapM_eq_ok reads member
      exact absurd good (bad entry)

section Schemes

variable {schemes : List Scheme}
  (ordered : ∀ scheme ∈ schemes, ∀ rule ∈ scheme.rules, rule.ordered = true)

include ordered

theorem map_scheme_ofScheme : (schemes.map Entry.ofScheme).map Entry.scheme = schemes := by
  have back : schemes.map (Entry.scheme ∘ Entry.ofScheme) = schemes.map id :=
    List.map_congr_left fun scheme member => Entry.scheme_ofScheme (ordered scheme member)
  rw [List.map_map, back, List.map_id]

theorem ofText_render_among (last : ∀ member ∈ after, member.1 ≠ "data")
    (writable : (Json.object (before ++
      ("data", .array ((schemes.map Entry.ofScheme).map Entry.toJson)) :: after)).Writable Json.maxDepth) :
    ofText (Json.object (before ++
      ("data", .array ((schemes.map Entry.ofScheme).map Entry.toJson)) :: after)).render = .ok schemes := by
  rw [ofText_render _ writable last, map_scheme_ofScheme ordered]

theorem ofText_render_toJson : ofText (toJson (schemes.map Entry.ofScheme)).render = .ok schemes := by
  refine @ofText_render_among [] [] _ ordered (by simp) ⟨by decide, ⟨by decide, ?_⟩, trivial⟩
  exact Entry.writableItems_toJson _ (by decide)

end Schemes

/-- Schemes whose intervals are in order can be written as a dictionary, alone or among other members, and
    are read back from its text, the same ones in the same order. The items of a dictionary are read one
    by one: those of two dictionaries together exactly when both can be read, and one item that is no
    entry makes a dictionary malformed. -/
theorem text_decodes_back :
    (∀ schemes : List Scheme, (∀ scheme ∈ schemes, ∀ rule ∈ scheme.rules, rule.ordered = true) →
      ofText (toJson (schemes.map Entry.ofScheme)).render = .ok schemes ∧
      ∀ before after : List (String × Json), (∀ member ∈ after, member.1 ≠ "data") →
        let entries := (schemes.map Entry.ofScheme).map Entry.toJson
        let value := Json.object (before ++ ("data", .array entries) :: after)
        value.Writable Json.maxDepth → ofText value.render = .ok schemes) ∧
    (∀ (left right both : Json) (items others : List Json), Holds left items → Holds right others →
      Holds both (items ++ others) → ∀ found, ofJson both = .ok found ↔ ∃ first last,
        ofJson left = .ok first ∧ ofJson right = .ok last ∧ found = first ++ last) ∧
    (∀ (value item : Json) (items : List Json), Holds value items → item ∈ items →
      (∀ entry, Entry.ofJson item ≠ .ok entry) → ofJson value = .error {}) := by
  refine ⟨?written, ?together, ?bad⟩
  case written =>
    intro schemes ordered
    refine ⟨ofText_render_toJson ordered, ?_⟩
    intro before after last entries value writable
    exact ofText_render_among ordered last writable
  case together =>
    intro left right both items others holdsLeft holdsRight holdsBoth found
    rw [ofJson_of_holds holdsLeft, ofJson_of_holds holdsRight, ofJson_of_holds holdsBoth]
    exact schemesOfItems_append_eq_ok_iff
  case bad =>
    intro value item items holds member bad
    exact ofJson_of_bad_item holds member bad

/-- A scheme without length rules, whose texts have a quote, a control character and letters beyond
    ASCII, and a dictionary with an item that is no entry. -/
theorem text_decodes_back_strange_names :
    let scheme : Scheme := ⟨"\"a\\", "Zoë \x01\n", [], [.interval 0 18446744073709551615], "😀"⟩
    let entries := ([scheme].map Entry.ofScheme).map Entry.toJson
    let value := Json.object ([("type", .string "cards")] ++ ("data", .array entries) :: [("rank", .natural 7)])
    let spoilt := Json.object [("data", .array (entries ++ [.null]))]
    (∀ s ∈ [scheme], ∀ rule ∈ s.rules, rule.ordered = true) ∧
    ofText (toJson ([scheme].map Entry.ofScheme)).render = .ok [scheme] ∧
    value.Writable Json.maxDepth ∧ ofText value.render = .ok [scheme] ∧
    Holds spoilt (entries ++ [.null]) ∧ (∀ entry, Entry.ofJson .null ≠ .ok entry) ∧
    ofJson spoilt = .error {} ∧
    ¬ ∃ first last, ofJson (toJson ([scheme].map Entry.ofScheme)) = .ok first ∧
      ofJson (.object [("data", .array [.null])]) = .ok last ∧ [scheme] = first ++ last := by
  intro scheme entries value spoilt
  have ordered : ∀ s ∈ [scheme], ∀ rule ∈ s.rules, rule.ordered = true := by decide
  have writable : value.Writable Json.maxDepth :=
    ⟨by decide, trivial, ⟨by decide, Entry.writableItems_toJson _ (by decide)⟩,
      Json.Number.isLiteral_natural 7, trivial⟩
  have bad : ∀ entry, Entry.ofJson .null ≠ .ok entry := by
    intro entry read
    cases read
  have holds : Holds spoilt (entries ++ [.null]) := ⟨_, rfl, rfl⟩
  obtain ⟨written, together, spoils⟩ := text_decodes_back
  obtain ⟨alone, among⟩ := written [scheme] ordered
  have malformed := spoils spoilt .null _ holds (by simp) bad
  have split := together (toJson ([scheme].map Entry.ofScheme)) (.object [("data", .array [.null])]) spoilt
    entries [.null] ⟨_, rfl, rfl⟩ ⟨_, rfl, rfl⟩ holds [scheme]
  refine ⟨ordered, alone, writable, among _ [("rank", .natural 7)] (by decide) writable, holds, bad,
    malformed, ?_⟩
  intro pieces
  rw [split.mpr pieces] at malformed
  cases malformed

end Dictionary

end Paycard
