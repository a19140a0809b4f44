import Mathlib
import Paycard.Batch

/-! # Batches in pieces

A tally stands for a function from keys to numbers. With its keys in order and no number zero it is the
only tally that stands for its function, so two tallies are the same if they count the same. The tally of a
batch counts how often each key occurs, however the batch is cut into pieces and whatever its order.
-/

namespace Paycard

namespace Tally

variable {tally left right : Tally} {key : Option String} {n : Nat}

/-- The number that a tally has for a key. Entries of one key would add up. -/
def countOf (tally : Tally) (key : Option String) : Nat :=
  (tally.map fun entry => if entry.1 = key then entry.2 else 0).sum

/-- Keys in rising order, so that none stands twice. -/
def Rising (tally : Tally) : Prop := tally.Pairwise fun earlier later => keyLT earlier.1 later.1 = true

/-- Keys in rising order, and none without a card number. -/
structure InOrder (tally : Tally) : Prop where
  rising : tally.Rising
  positive : ∀ entry ∈ tally, 0 < entry.2

/-! ## Order of keys -/

theorem keyLT_irrefl (key : Option String) : keyLT key key = false := by
  cases key with
  | none => rfl
  | some id => simp [keyLT]

theorem ne_of_keyLT {a b : Option String} (before : keyLT a b = true) : b ≠ a := by
  rintro rfl
  rw [keyLT_irrefl] at before
  cases before

theorem keyLT_trans {a b c : Option String} (first : keyLT a b = true) (second : keyLT b c = true) :
    keyLT a c = true := by
  cases a with
  | none => cases b <;> cases c <;> trivial
  | some a =>
      cases b with
      | none => cases first
      | some b =>
          cases c with
          | none => cases second
          | some c =>
              simp only [keyLT, decide_eq_true_eq] at first second ⊢
              exact String.lt_trans first second

theorem keyLT_of_ne {a b : Option String} (different : a ≠ b) (notBefore : keyLT b a = false) :
    keyLT a b = true := by
  cases a with
  | none =>
      cases b with
      | none => exact absurd rfl different
      | some b => rfl
  | some a =>
      cases b with
      | none => cases notBefore
      | some b =>
          simp only [keyLT, decide_eq_true_eq, decide_eq_false_iff_not, String.not_lt] at notBefore ⊢
          by_contra notAfter
          exact different (congrArg some (String.le_antisymm notBefore (String.not_lt.mp notAfter)))

/-! ## What a tally stands for -/

theorem countOf_cons (entry : Option String × Nat) (tally : Tally) (key : Option String) :
    countOf (entry :: tally) key = (if entry.1 = key then entry.2 else 0) + countOf tally key := by
  simp [countOf]

theorem countOf_eq_zero (absent : ∀ entry ∈ tally, entry.1 ≠ key) : countOf tally key = 0 := by
  induction tally with
  | nil => rfl
  | cons entry tally ih =>
      simp only [List.forall_mem_cons] at absent
      rw [countOf_cons, if_neg absent.1, ih absent.2]

theorem countOf_add (k : Option String) (n : Nat) (tally : Tally) (key : Option String) :
    countOf (tally.add k n) key = countOf tally key + if k = key then n else 0 := by
  induction tally with
  | nil => simp [add, countOf]
  | cons entry tally ih =>
      obtain ⟨first, m⟩ := entry
      unfold add
      split
      · rename_i same
        subst same
        simp only [countOf_cons]
        split <;> omega
      · split
        · simp only [countOf_cons]
          omega
        · simp only [countOf_cons, ih]
          omega

theorem countOf_merge (left right : Tally) (key : Option String) :
    countOf (left.merge right) key = countOf left key + countOf right key := by
  induction right generalizing left with
  | nil => rfl
  | cons entry right ih =>
      show countOf ((left.add entry.1 entry.2).merge right) key = _
      simp only [ih, countOf_add, countOf_cons]
      omega

theorem sum_add (key : Option String) (n : Nat) (tally : Tally) :
    ((tally.add key n).map Prod.snd).sum = (tally.map Prod.snd).sum + n := by
  induction tally with
  | nil => simp [add]
  | cons entry tally ih =>
      unfold add
      split
      · simp only [List.map_cons, List.sum_cons]
        omega
      · split
        · simp only [List.map_cons, List.sum_cons]
          omega
        · simp only [List.map_cons, List.sum_cons, ih]
          omega

theorem sum_merge (left right : Tally) :
    ((left.merge right).map Prod.snd).sum = (left.map Prod.snd).sum + (right.map Prod.snd).sum := by
  induction right generalizing left with
  | nil => rfl
  | cons entry right ih =>
      show (((left.add entry.1 entry.2).merge right).map Prod.snd).sum = _
      simp only [ih, sum_add, List.map_cons, List.sum_cons]
      omega

/-! ## Tallies in order -/

/-- What holds of the old entries and of one for the new key holds of all. -/
theorem forall_mem_add {P : Option String × Nat → Prop} (fresh : P (key, n))
    (grown : ∀ m, P (key, m) → P (key, m + n)) (old : ∀ entry ∈ tally, P entry) :
    ∀ entry ∈ tally.add key n, P entry := by
  induction tally with
  | nil => simpa [add] using fresh
  | cons first tally ih =>
      obtain ⟨k, m⟩ := first
      have ⟨here, later⟩ := List.forall_mem_cons.mp old
      unfold add
      split
      · rename_i same
        subst same
        exact List.forall_mem_cons.mpr ⟨grown m here, later⟩
      · split
        · exact List.forall_mem_cons.mpr ⟨fresh, old⟩
        · exact List.forall_mem_cons.mpr ⟨here, ih later⟩

theorem rising_add (rising : tally.Rising) (key : Option String) (n : Nat) :
    (tally.add key n).Rising := by
  induction tally with
  | nil => exact List.pairwise_singleton _ _
  | cons first tally ih =>
      have ⟨above, rest⟩ := List.pairwise_cons.mp rising
      unfold add
      split
      · exact List.pairwise_cons.mpr ⟨above, rest⟩
      · rename_i different
        split
        · rename_i before
          refine List.pairwise_cons.mpr ⟨List.forall_mem_cons.mpr ⟨before, ?_⟩, rising⟩
          intro later member
          exact keyLT_trans before (above later member)
        · rename_i notBefore
          have after : keyLT first.1 key = true := keyLT_of_ne different (Bool.not_eq_true _ ▸ notBefore)
          exact List.pairwise_cons.mpr ⟨forall_mem_add after (fun _ _ => after) above, ih rest⟩

theorem inOrder_add (inOrder : tally.InOrder) (counted : 0 < n) (key : Option String) :
    (tally.add key n).InOrder where
  rising := rising_add inOrder.rising key n
  positive := forall_mem_add counted (fun m _ => Nat.add_pos_right m counted) inOrder.positive

theorem inOrder_merge (inOrder : left.InOrder) (positive : ∀ entry ∈ right, 0 < entry.2) :
    (left.merge right).InOrder := by
  induction right generalizing left with
  | nil => exact inOrder
  | cons entry right ih =>
      have ⟨here, later⟩ := List.forall_mem_cons.mp positive
      exact ih (inOrder_add inOrder here entry.1) later

theorem mem_iff_of_rising (rising : tally.Rising) (counted : 0 < n) :
    (key, n) ∈ tally ↔ countOf tally key = n := by
  induction tally with
  | nil =>
      simp only [List.not_mem_nil, countOf, List.map_nil, List.sum_nil, false_iff]
      omega
  | cons first tally ih =>
      obtain ⟨k, m⟩ := first
      have ⟨above, rest⟩ := List.pairwise_cons.mp rising
      simp only [countOf_cons, List.mem_cons, ih rest, Prod.mk.injEq]
      by_cases here : k = key
      · subst here
        have absent : countOf tally k = 0 :=
          countOf_eq_zero fun entry later => ne_of_keyLT (above entry later)
        simp only [absent, true_and, if_true]
        omega
      · simp [here, Ne.symm here]

theorem mem_iff (inOrder : tally.InOrder) : (key, n) ∈ tally ↔ 0 < n ∧ countOf tally key = n := by
  constructor
  · intro member
    have counted := inOrder.positive _ member
    exact ⟨counted, (mem_iff_of_rising inOrder.rising counted).mp member⟩
  · intro ⟨counted, same⟩
    exact (mem_iff_of_rising inOrder.rising counted).mpr same

theorem nodup_keys (rising : tally.Rising) : (tally.map Prod.fst).Nodup := by
  rw [List.Nodup, List.pairwise_map]
  exact rising.imp fun before => (ne_of_keyLT before).symm

/-- Tallies in order that count the same are the same. -/
theorem eq_of_countOf_eq (inOrder : left.InOrder) (inOrder' : right.InOrder)
    (same : ∀ key, countOf left key = countOf right key) : left = right := by
  have members : ∀ entry, entry ∈ left ↔ entry ∈ right := by
    intro ⟨key, n⟩
    rw [mem_iff inOrder, mem_iff inOrder', same]
  have once := List.Nodup.of_map Prod.fst (nodup_keys inOrder.rising)
  have once' := List.Nodup.of_map Prod.fst (nodup_keys inOrder'.rising)
  have perm := (List.perm_ext_iff_of_nodup once once').mpr members
  refine perm.eq_of_pairwise ?_ inOrder.rising inOrder'.rising
  intro a b _ _ before after
  exact absurd rfl (ne_of_keyLT (keyLT_trans before after))

end Tally

/-! ## Tallies of batches -/

/-- The identifier of the scheme of each card number, in order. -/
def detectedIds (schemes : List Scheme) (cards : List String) : List (Option String) :=
  (detectAll schemes cards).map (Option.map Scheme.id)

theorem detectedIds_append (schemes : List Scheme) (cards others : List String) :
    detectedIds schemes (cards ++ others) = detectedIds schemes cards ++ detectedIds schemes others := by
  simp [detectedIds, detectAll]

theorem countByScheme_eq_merge (schemes : List Scheme) (cards : List String) :
    countByScheme schemes cards = Tally.merge [] ((detectedIds schemes cards).map (·, 1)) := by
  simp only [countByScheme, Tally.merge, detectedIds, detectAll, List.foldl_map]

theorem inOrder_countByScheme (schemes : List Scheme) (cards : List String) :
    (countByScheme schemes cards).InOrder := by
  rw [countByScheme_eq_merge]
  apply Tally.inOrder_merge ⟨List.Pairwise.nil, by simp⟩
  simp

theorem countOf_countByScheme (schemes : List Scheme) (cards : List String) (key : Option String) :
    (countByScheme schemes cards).countOf key = (detectedIds schemes cards).count key := by
  rw [countByScheme_eq_merge, Tally.countOf_merge]
  induction detectedIds schemes cards with
  | nil => rfl
  | cons id ids ih =>
      simp only [List.map_cons, Tally.countOf_cons, List.count_cons, beq_iff_eq, ← ih]
      omega

theorem mem_countByScheme_iff {schemes : List Scheme} {cards : List String} {key : Option String}
    {n : Nat} : (key, n) ∈ countByScheme schemes cards ↔
      key ∈ detectedIds schemes cards ∧ n = (detectedIds schemes cards).count key := by
  rw [Tally.mem_iff (inOrder_countByScheme schemes cards), countOf_countByScheme]
  constructor
  · rintro ⟨counted, rfl⟩
    exact ⟨List.count_pos_iff.mp counted, rfl⟩
  · rintro ⟨found, rfl⟩
    exact ⟨List.count_pos_iff.mpr found, rfl⟩

theorem sum_countByScheme (schemes : List Scheme) (cards : List String) :
    ((countByScheme schemes cards).map Prod.snd).sum = cards.length := by
  rw [countByScheme_eq_merge, Tally.sum_merge]
  simp [detectedIds, detectAll, List.map_map, Function.comp_def]

theorem countByScheme_perm {cards others : List String} (perm : cards.Perm others)
    (schemes : List Scheme) : countByScheme schemes others = countByScheme schemes cards := by
  apply Tally.eq_of_countOf_eq (inOrder_countByScheme schemes others) (inOrder_countByScheme schemes cards)
  intro key
  rw [countOf_countByScheme, countOf_countByScheme]
  exact ((perm.map _).map _).symm.count_eq key

theorem countByScheme_append (schemes : List Scheme) (cards others : List String) :
    countByScheme schemes (cards ++ others) =
      (countByScheme schemes cards).merge (countByScheme schemes others) := by
  have inOrder := inOrder_countByScheme schemes
  apply Tally.eq_of_countOf_eq (inOrder _) (Tally.inOrder_merge (inOrder cards) (inOrder others).positive)
  intro key
  rw [Tally.countOf_merge]
  simp only [countOf_countByScheme, detectedIds_append, List.count_append]

namespace Split

theorem countByScheme_eq (schemes : List Scheme) (split : Split) :
    split.countByScheme schemes = Paycard.countByScheme schemes split.cards := by
  induction split with
  | piece cards => rfl
  | both left right ihl ihr => rw [countByScheme, ihl, ihr, cards, countByScheme_append]

theorem detectAll_eq (schemes : List Scheme) (split : Split) :
    split.detectAll schemes = Paycard.detectAll schemes split.cards := by
  induction split with
  | piece cards => rfl
  | both left right ihl ihr =>
      rw [detectAll, ihl, ihr, cards]
      exact List.map_append.symm

end Split

/-- A batch gives the same results and the same tally in whatever pieces it is worked on. The tally has the
    identifiers that are detected, each once, with the number of card numbers it is detected for. These
    numbers add up to the size of the batch, and its order does not count. -/
theorem split_changes_nothing (schemes : List Scheme) :
    (∀ split : Split, split.countByScheme schemes = countByScheme schemes split.cards ∧
      split.detectAll schemes = detectAll schemes split.cards) ∧
    (∀ cards : List String,
      let tally := countByScheme schemes cards
      let ids := (detectAll schemes cards).map (Option.map Scheme.id)
      (∀ key n, (key, n) ∈ tally ↔ key ∈ ids ∧ n = ids.count key) ∧
      (tally.map Prod.fst).Nodup ∧ (∀ entry ∈ tally, 0 < entry.2) ∧
      (tally.map Prod.snd).sum = cards.length ∧
      ∀ others, cards.Perm others → countByScheme schemes others = tally) := by
  constructor
  · intro split
    exact ⟨split.countByScheme_eq schemes, split.detectAll_eq schemes⟩
  · intro cards tally ids
    have inOrder : tally.InOrder := inOrder_countByScheme schemes cards
    refine ⟨?_, Tally.nodup_keys inOrder.rising, inOrder.positive, sum_countByScheme schemes cards, ?_⟩
    · intro key n
      exact mem_countByScheme_iff
    · intro others perm
      exact countByScheme_perm perm schemes

/-- Two schemes share an identifier, one piece is empty, and one card number belongs to no scheme. -/
theorem split_changes_nothing_shared_identifier :
    let visa : Scheme := ⟨"visa", "Visa", [.digits 1], [.digits 4], ""⟩
    let electron : Scheme := ⟨"visa", "Electron", [.digits 2], [.digits 4], ""⟩
    let split : Split := .both (.piece []) (.both (.piece ["4", "7"]) (.piece ["41"]))
    split.countByScheme [visa, electron] = [(none, 1), (some "visa", 2)] ∧
    split.detectAll [visa, electron] = [some visa, none, some electron] ∧
    (some "visa", 2) ∈ countByScheme [visa, electron] ["4", "7", "41"] ∧ 0 < 2 ∧
    ["4", "7", "41"].Perm ["41", "4", "7"] ∧
    countByScheme [visa, electron] ["41", "4", "7"] = countByScheme [visa, electron] ["4", "7", "41"] := by
  intro visa electron split
  obtain ⟨pieces, batches⟩ := split_changes_nothing [visa, electron]
  obtain ⟨-, -, positive, -, reordered⟩ := batches ["4", "7", "41"]
  have tally : countByScheme [visa, electron] ["4", "7", "41"] = [(none, 1), (some "visa", 2)] := by decide
  have results : detectAll [visa, electron] ["4", "7", "41"] = [some visa, none, some electron] := by decide
  have member : (some "visa", 2) ∈ countByScheme [visa, electron] ["4", "7", "41"] := by
    rw [tally]
    decide
  have perm : ["4", "7", "41"].Perm ["41", "4", "7"] := by decide
  exact ⟨(pieces split).1.trans tally, (pieces split).2.trans results, member, positive _ member, perm,
    reordered _ perm⟩

end Paycard
