import Mathlib.Data.String.Basic
import Paycard.Detection
import Paycard.Proofs.Rule.Matching

/-! # Overlapping schemes

Two schemes overlap when some card number belongs to both. Whether they do can be read off their rules:
both must admit some length, and of the leading numbers that they admit one must start with another and
leave room within that length. Schemes that do not overlap can be listed in any order. Where two schemes
overlap, the order decides for some card number which of them is found.
-/

namespace Paycard

/-! ## Sizes of digit texts -/

namespace Text

theorem utf8Len_digits {cs : List Char} (digits : ∀ c ∈ cs, c.isDigit = true) :
    String.utf8Len cs = cs.length := by
  induction cs with
  | nil => rfl
  | cons c cs ih =>
      have ⟨first, others⟩ := List.forall_mem_cons.mp digits
      have single : c.utf8Size = 1 := by
        apply Char.utf8Size_eq_one_iff.mpr
        have ⟨_, high⟩ := Char.isDigit_iff_toNat.mp first
        exact UInt32.le_iff_toNat_le.mpr (Nat.le_trans high (by decide))
      rw [String.utf8Len_cons, ih others, single, List.length_cons]

/-- Digits at the start of a text take no more room than the text. -/
theorem length_le_of_digits_prefix {cs : List Char} {text : String} (digits : ∀ c ∈ cs, c.isDigit = true)
    (starts : cs <+: text.toList) : cs.length ≤ text.utf8ByteSize := by
  rw [← utf8Len_digits digits, ← String.utf8Len_toList]
  exact String.utf8Len_le_of_prefix starts

/-- Digits can be filled up to any greater length. -/
theorem exists_digits_of_length {cs : List Char} (digits : ∀ c ∈ cs, c.isDigit = true) {n : Nat}
    (fits : cs.length ≤ n) :
    ∃ text : String, cs <+: text.toList ∧ text.utf8ByteSize = n ∧ ∀ c ∈ text.toList, c.isDigit = true := by
  have all : ∀ c ∈ cs ++ List.replicate (n - cs.length) '0', c.isDigit = true := by
    intro c member
    rcases List.mem_append.mp member with written | filled
    · exact digits c written
    · rw [List.eq_of_mem_replicate filled]
      rfl
  refine ⟨String.ofList (cs ++ List.replicate (n - cs.length) '0'), ?_, ?_, ?_⟩
  · simp
  · rw [String.utf8ByteSize_ofList, utf8Len_digits all]
    simp
    omega
  · simpa using all

end Text

/-! ## Card numbers of two schemes -/

/-- The decimal numeral of a value. -/
def Rule.numeral (v : UInt64) : List Char := Nat.toDigits 10 v.toNat

theorem Rule.isDigit_numeral (v : UInt64) : ∀ c ∈ numeral v, c.isDigit = true :=
  Text.isDigit_toDigits v.toNat

namespace Scheme

open Rule (AnyCovers numeral isDigit_numeral)

/-- A length and two leading numbers, one for each scheme, that one card number can have: the schemes
    admit them, one numeral starts with the other, and both fit into the length. -/
structure MeetAt (a b : Scheme) (length first second : UInt64) : Prop where
  lengthLeft : AnyCovers a.lengths length
  lengthRight : AnyCovers b.lengths length
  rangeLeft : AnyCovers a.ranges first
  rangeRight : AnyCovers b.ranges second
  starts : numeral first <+: numeral second ∨ numeral second <+: numeral first
  fits : max (numeral first).length (numeral second).length ≤ length.toNat

/-- The rules of two schemes leave room for a card number of both, not empty and of no more bytes than
    the longest text has. -/
def Overlap (longest : Nat) (a b : Scheme) : Prop :=
  ∃ length first second, 1 ≤ length.toNat ∧ length.toNat ≤ longest ∧ MeetAt a b length first second

variable {a b scheme : Scheme} {card : String} {longest : Nat}

theorem matchesCard_iff : scheme.matchesCard card = true ↔
    (∃ length, AnyCovers scheme.lengths length ∧ length.toNat = card.utf8ByteSize) ∧
      ∃ v, AnyCovers scheme.ranges v ∧ numeral v <+: card.toList := by
  rw [matchesCard, Bool.and_eq_true, Rule.matchesLength_iff, Rule.matchesRange_iff]
  rfl

theorem size_pos_iff : 1 ≤ card.utf8ByteSize ↔ card ≠ "" := by
  rw [Nat.one_le_iff_ne_zero, ne_eq, String.utf8ByteSize_eq_zero_iff]

theorem overlap_of_matchesCard (nonempty : card ≠ "") (representable : card.utf8ByteSize ≤ longest)
    (left : a.matchesCard card = true) (right : b.matchesCard card = true) : Overlap longest a b := by
  obtain ⟨⟨length, lengthLeft, size⟩, first, rangeLeft, startsLeft⟩ := matchesCard_iff.mp left
  obtain ⟨⟨length', lengthRight, size'⟩, second, rangeRight, startsRight⟩ := matchesCard_iff.mp right
  obtain rfl : length' = length := UInt64.toNat_inj.mp (size'.trans size.symm)
  have starts := List.prefix_or_prefix_of_prefix startsLeft startsRight
  have fitsLeft := Text.length_le_of_digits_prefix (isDigit_numeral first) startsLeft
  have fitsRight := Text.length_le_of_digits_prefix (isDigit_numeral second) startsRight
  refine ⟨length', first, second, ?_, ?_, lengthLeft, lengthRight, rangeLeft, rangeRight, starts, ?_⟩
  · rw [size, size_pos_iff]
    exact nonempty
  · omega
  · omega

/-- The longer numeral, filled up to the length, is a card number of both schemes. -/
theorem exists_card_of_meetAt {length first second : UInt64} (meet : MeetAt a b length first second) :
    ∃ card : String, card.utf8ByteSize = length.toNat ∧ (∀ c ∈ card.toList, c.isDigit = true) ∧
      a.matchesCard card = true ∧ b.matchesCard card = true := by
  obtain ⟨lengthLeft, lengthRight, rangeLeft, rangeRight, starts, fits⟩ := meet
  obtain ⟨longer, digits, within, startsLeft, startsRight⟩ : ∃ longer : List Char,
      (∀ c ∈ longer, c.isDigit = true) ∧ longer.length ≤ length.toNat ∧
        numeral first <+: longer ∧ numeral second <+: longer := by
    rcases starts with shorter | longer
    · exact ⟨numeral second, isDigit_numeral second, by omega, shorter, List.prefix_rfl⟩
    · exact ⟨numeral first, isDigit_numeral first, by omega, List.prefix_rfl, longer⟩
  obtain ⟨card, begins, size, written⟩ := Text.exists_digits_of_length digits within
  refine ⟨card, size, written, matchesCard_iff.mpr ?_, matchesCard_iff.mpr ?_⟩
  · exact ⟨⟨length, lengthLeft, size.symm⟩, first, rangeLeft, startsLeft.trans begins⟩
  · exact ⟨⟨length, lengthRight, size.symm⟩, second, rangeRight, startsRight.trans begins⟩

theorem Overlap.exists_card (overlap : Overlap longest a b) :
    ∃ card : String, card ≠ "" ∧ card.utf8ByteSize ≤ longest ∧
      (∀ c ∈ card.toList, c.isDigit = true) ∧ a.matchesCard card = true ∧ b.matchesCard card = true := by
  obtain ⟨length, first, second, positive, representable, meet⟩ := overlap
  obtain ⟨card, size, digits, left, right⟩ := exists_card_of_meetAt meet
  exact ⟨card, size_pos_iff.mp (size ▸ positive), size ▸ representable, digits, left, right⟩

/-- No two schemes at different places of the list overlap. -/
def MutuallyExclusive (longest : Nat) (schemes : List Scheme) : Prop :=
  schemes.Pairwise fun a b => ¬ Overlap longest a b

theorem MutuallyExclusive.eq_of_matchesCard {schemes : List Scheme}
    (exclusive : MutuallyExclusive longest schemes) (nonempty : card ≠ "")
    (representable : card.utf8ByteSize ≤ longest) (memberA : a ∈ schemes) (memberB : b ∈ schemes)
    (left : a.matchesCard card = true) (right : b.matchesCard card = true) : a = b := by
  obtain ⟨i, insideA, rfl⟩ := List.mem_iff_getElem.mp memberA
  obtain ⟨j, insideB, rfl⟩ := List.mem_iff_getElem.mp memberB
  have apart := List.pairwise_iff_getElem.mp exclusive
  rcases Nat.lt_trichotomy i j with before | same | after
  · exact absurd (overlap_of_matchesCard nonempty representable left right) (apart i j insideA insideB before)
  · simp only [same]
  · exact absurd (overlap_of_matchesCard nonempty representable right left) (apart j i insideB insideA after)

end Scheme

/-! ## The first scheme that matches -/

variable {schemes others : List Scheme} {scheme : Scheme} {card : String} {longest : Nat}

theorem detectIndex?_eq_some_iff {i : Nat} : detectIndex? schemes card = some i ↔
    card ≠ "" ∧ ∃ inside : i < schemes.length, schemes[i].matchesCard card = true ∧
      ∀ j (before : j < i), schemes[j].matchesCard card = false := by
  rw [detectIndex?]
  split
  · rename_i empty
    simp [String.isEmpty_iff.mp empty]
  · rename_i nonempty
    rw [List.findIdx?_eq_some_iff_getElem]
    simp only [String.isEmpty_iff] at nonempty
    simp only [ne_eq, nonempty, not_false_eq_true, true_and, Bool.not_eq_true]

theorem detect?_eq_bind (schemes : List Scheme) (card : String) :
    detect? schemes card = (detectIndex? schemes card).bind (schemes[·]?) := by
  rw [detect?, detectIndex?]
  split
  · rfl
  · exact List.find?_eq_bind_findIdx?_getElem?

theorem detect?_eq_none_iff : detect? schemes card = none ↔
    card = "" ∨ ∀ scheme ∈ schemes, scheme.matchesCard card = false := by
  rw [detect?]
  split
  · rename_i empty
    exact iff_of_true rfl (.inl (String.isEmpty_iff.mp empty))
  · rename_i nonempty
    rw [String.isEmpty_iff] at nonempty
    simp [nonempty]

theorem detect?_eq_some_imp (found : detect? schemes card = some scheme) :
    card ≠ "" ∧ scheme ∈ schemes ∧ scheme.matchesCard card = true := by
  rw [detect?] at found
  split at found
  · cases found
  · rename_i nonempty
    have matched := List.find?_some found
    exact ⟨mt String.isEmpty_iff.mpr nonempty, List.mem_of_find?_eq_some found, matched⟩

/-- Schemes that exclude one another are found whatever their order. -/
theorem detect?_perm (exclusive : Scheme.MutuallyExclusive longest schemes)
    (perm : schemes.Perm others) (representable : card.utf8ByteSize ≤ longest) :
    detect? others card = detect? schemes card := by
  cases found : detect? schemes card with
  | none =>
      rw [detect?_eq_none_iff] at found ⊢
      exact found.imp_right fun none scheme member => none scheme (perm.mem_iff.mpr member)
  | some scheme =>
      obtain ⟨nonempty, member, matched⟩ := detect?_eq_some_imp found
      cases again : detect? others card with
      | none =>
          rcases detect?_eq_none_iff.mp again with empty | none
          · exact absurd empty nonempty
          · rw [none scheme (perm.mem_iff.mp member)] at matched
            cases matched
      | some other =>
          obtain ⟨-, member', matched'⟩ := detect?_eq_some_imp again
          rw [exclusive.eq_of_matchesCard nonempty representable (perm.mem_iff.mpr member') member
            matched' matched]

theorem detect?_cons_of_matchesCard (nonempty : card ≠ "") (matched : scheme.matchesCard card = true) :
    detect? (scheme :: schemes) card = some scheme := by
  simp [detect?, nonempty, matched]

/-- Two schemes overlap if and only if some card number belongs to both, whatever the longest text is.
    Then the order in which they are listed decides which of them is found for some card number that is
    written in digits; a list without overlaps gives the same results in any order. What is found is the
    first scheme that matches. -/
theorem order_decides_overlaps_only (longest : Nat) :
    (∀ a b : Scheme, (∃ card : String, card ≠ "" ∧ card.utf8ByteSize ≤ longest ∧
      a.matchesCard card = true ∧ b.matchesCard card = true) ↔ Scheme.Overlap longest a b) ∧
    (∀ schemes, Scheme.MutuallyExclusive longest schemes → ∀ others, schemes.Perm others →
      ∀ card : String, card.utf8ByteSize ≤ longest → detect? others card = detect? schemes card) ∧
    (∀ a b, Scheme.Overlap longest a b → ∃ card : String, (∀ c ∈ card.toList, c.isDigit = true) ∧
      card.utf8ByteSize ≤ longest ∧ detect? [a, b] card = some a ∧ detect? [b, a] card = some b) ∧
    (∀ schemes card,
      detect? schemes card = (detectIndex? schemes card).bind (schemes[·]?) ∧
      (∀ i, detectIndex? schemes card = some i ↔ card ≠ "" ∧ ∃ inside : i < schemes.length,
        schemes[i].matchesCard card = true ∧ ∀ j (before : j < i), schemes[j].matchesCard card = false) ∧
      (detect? schemes card = none ↔ card = "" ∨ ∀ scheme ∈ schemes, scheme.matchesCard card = false)) := by
  refine ⟨?overlap, ?exclusive, ?order, ?first⟩
  case overlap =>
    intro a b
    constructor
    · intro ⟨card, nonempty, representable, left, right⟩
      exact Scheme.overlap_of_matchesCard nonempty representable left right
    · intro overlap
      obtain ⟨card, nonempty, representable, -, matched⟩ := overlap.exists_card
      exact ⟨card, nonempty, representable, matched⟩
  case exclusive =>
    intro schemes exclusive others perm card representable
    exact detect?_perm exclusive perm representable
  case order =>
    intro a b overlap
    obtain ⟨card, nonempty, representable, digits, left, right⟩ := overlap.exists_card
    exact ⟨card, digits, representable, detect?_cons_of_matchesCard nonempty left,
      detect?_cons_of_matchesCard nonempty right⟩
  case first =>
    intro schemes card
    exact ⟨detect?_eq_bind schemes card, fun i => detectIndex?_eq_some_iff, detect?_eq_none_iff⟩

/-- A number of one digit from an interval of mixed widths meets one of four digits. The third scheme shares
    its length with neither. -/
theorem order_decides_overlaps_only_mixed_widths :
    let visa : Scheme := ⟨"visa", "Visa", [.interval 13 16], [.interval 4 40], ""⟩
    let electron : Scheme := ⟨"electron", "Electron", [.digits 16], [.digits 4026], ""⟩
    let maestro : Scheme := ⟨"maestro", "Maestro", [.digits 19], [.digits 4], ""⟩
    Scheme.Overlap 16 visa electron ∧
    (∃ card : String, card ≠ "" ∧ card.utf8ByteSize ≤ 16 ∧ visa.matchesCard card = true ∧
      electron.matchesCard card = true) ∧
    (∃ card : String, (∀ c ∈ card.toList, c.isDigit = true) ∧ card.utf8ByteSize ≤ 16 ∧
      detect? [visa, electron] card = some visa ∧ detect? [electron, visa] card = some electron) ∧
    Scheme.MutuallyExclusive 19 [maestro, electron] ∧ [maestro, electron].Perm [electron, maestro] ∧
    "4026000000000000".utf8ByteSize ≤ 19 ∧
    detect? [electron, maestro] "4026000000000000" = detect? [maestro, electron] "4026000000000000" := by
  intro visa electron maestro
  obtain ⟨overlaps, -, order, -⟩ := order_decides_overlaps_only 16
  have overlap : Scheme.Overlap 16 visa electron := by
    refine ⟨16, 4, 4026, by decide, by decide, ?_⟩
    exact
      { lengthLeft := ⟨.interval 13 16, by simp [visa], by decide, by decide⟩
        lengthRight := ⟨.digits 16, by simp [electron], rfl⟩
        rangeLeft := ⟨.interval 4 40, by simp [visa], by decide, by decide⟩
        rangeRight := ⟨.digits 4026, by simp [electron], rfl⟩
        starts := .inl (by decide)
        fits := by decide }
  have apart : Scheme.MutuallyExclusive 19 [maestro, electron] := by
    refine List.pairwise_pair.mpr ?_
    rintro ⟨length, first, second, -, -, meet⟩
    have left : length = 19 := by simpa [Rule.AnyCovers, Rule.Covers, maestro] using meet.lengthLeft
    have right : length = 16 := by simpa [Rule.AnyCovers, Rule.Covers, electron] using meet.lengthRight
    exact absurd (left.symm.trans right) (by decide)
  have perm : [maestro, electron].Perm [electron, maestro] := .swap _ _ _
  have short : "4026000000000000".utf8ByteSize ≤ 19 := by decide
  obtain ⟨-, anyOrder, -, -⟩ := order_decides_overlaps_only 19
  exact ⟨overlap, (overlaps visa electron).mpr overlap, order visa electron overlap, apart, perm, short,
    anyOrder _ apart _ perm _ short⟩

end Paycard
