import Paycard.Json.Reading

/-! # The tree that a text spells

A whole tree has its tokens: its brackets, marks and plain values in the order in which they are written.
A reader finds a whole tree exactly in the tokens of that tree. One direction goes through the tree; the
other goes through the tokens, where a reader never forgets what it has taken.
-/

namespace Paycard.Json

namespace Tree

mutual

/-- The tokens of a tree that has no broken place. -/
def toTokens : Tree → List Token
  | .null => [.null]
  | .bool value => [.bool value]
  | .number value => [.number value]
  | .string value => [.string value]
  | .array [] _ => [.openArray, .closeArray]
  | .array (item :: items) _ => .openArray :: item.toTokens ++ tokensAfterItem items
  | .object [] _ => [.openObject, .closeObject]
  | .object ((key, value) :: members) _ =>
      .openObject :: .string key :: .colon :: value.toTokens ++ tokensAfterMember members
  | .broken => [.invalid]

def tokensAfterItem : List Tree → List Token
  | [] => [.closeArray]
  | item :: items => .comma :: item.toTokens ++ tokensAfterItem items

def tokensAfterMember : List (Option String × Tree) → List Token
  | [] => [.closeObject]
  | (key, value) :: members =>
      .comma :: .string key :: .colon :: value.toTokens ++ tokensAfterMember members

end

/-! ## Reading the tokens of a tree -/

/-- Reads on after a whole value. -/
def readAfter (tree : Tree) (stack : List Context) (rest : List Token) : Tree × List Token :=
  match resume tree stack with
  | some (next, stack) => readOn next stack rest
  | none => (tree, rest)

theorem readOn_complete {expected : Expected} {token : Token} {tree : Tree} {stack around : List Context}
    (moves : move expected token stack = complete tree around) (rest : List Token) :
    readOn expected stack (token :: rest) = readAfter tree around rest := by
  rw [readOn, moves, complete, readAfter]
  cases resume tree around with
  | none => rfl
  | some next => rfl

theorem readOn_expect {expected next : Expected} {token : Token} {stack around : List Context}
    (moves : move expected token stack = .expect next around) (rest : List Token) :
    readOn expected stack (token :: rest) = readOn next around rest := by
  rw [readOn, moves]

/-- The first item of an array is read like any value. -/
theorem readOn_firstItem {tree : Tree} (whole : tree.whole = true) (stack : List Context)
    (rest : List Token) : readOn .valueOrEnd stack (tree.toTokens ++ rest) =
      readOn .value (.item [] :: stack) (tree.toTokens ++ rest) := by
  cases tree with
  | array items _ => cases items <;> rfl
  | object members _ => cases members <;> rfl
  | broken => cases whole
  | null | bool _ | number _ | string _ => rfl

mutual

/-- Where a value has to come, the tokens of a tree are read as the tree. -/
theorem readOn_toTokens : ∀ (tree : Tree) (stack : List Context) (rest : List Token),
    tree.whole = true → readOn .value stack (tree.toTokens ++ rest) = readAfter tree stack rest
  | .null, stack, rest, _ => readOn_complete rfl rest
  | .bool _, stack, rest, _ => readOn_complete rfl rest
  | .number _, stack, rest, _ => readOn_complete rfl rest
  | .string _, stack, rest, _ => readOn_complete rfl rest
  | .array [] true, stack, rest, _ => by
      exact (readOn_expect rfl _).trans (readOn_complete rfl rest)
  | .array (item :: items) true, stack, rest, whole => by
      simp only [Tree.whole, wholeItems, Bool.and_eq_true] at whole
      simp only [toTokens, List.cons_append, List.append_assoc]
      rw [readOn_expect rfl, readOn_firstItem whole.1.1, readOn_toTokens item _ _ whole.1.1]
      exact readOn_tokensAfterItem items [item] stack rest whole.1.2
  | .object [] true, stack, rest, _ => by
      exact (readOn_expect rfl _).trans (readOn_complete rfl rest)
  | .object ((key, value) :: members) true, stack, rest, whole => by
      simp only [Tree.whole, wholeMembers, Bool.and_eq_true] at whole
      simp only [toTokens, List.cons_append, List.append_assoc]
      rw [readOn_expect rfl, readOn_expect rfl, readOn_expect rfl, readOn_toTokens value _ _ whole.1.1]
      exact readOn_tokensAfterMember members [(key, value)] stack rest whole.1.2
  | .array _ false, _, _, whole => by simp [Tree.whole] at whole
  | .object _ false, _, _, whole => by simp [Tree.whole] at whole

theorem readOn_tokensAfterItem : ∀ (items before : List Tree) (stack : List Context) (rest : List Token),
    wholeItems items = true → readOn (.commaOrEnd before) stack (tokensAfterItem items ++ rest) =
      readAfter (.array (before.reverse ++ items) true) stack rest
  | [], before, stack, rest, _ => by
      rw [List.append_nil]
      exact readOn_complete rfl rest
  | item :: items, before, stack, rest, whole => by
      simp only [wholeItems, Bool.and_eq_true] at whole
      simp only [tokensAfterItem, List.cons_append, List.append_assoc]
      rw [readOn_expect rfl, readOn_toTokens item _ _ whole.1]
      have others := readOn_tokensAfterItem items (item :: before) stack rest whole.2
      rw [List.reverse_cons, List.append_assoc] at others
      exact others

theorem readOn_tokensAfterMember : ∀ (members before : List (Option String × Tree))
    (stack : List Context) (rest : List Token), wholeMembers members = true →
    readOn (.commaOrClose before) stack (tokensAfterMember members ++ rest) =
      readAfter (.object (before.reverse ++ members) true) stack rest
  | [], before, stack, rest, _ => by
      rw [List.append_nil]
      exact readOn_complete rfl rest
  | (key, value) :: members, before, stack, rest, whole => by
      simp only [wholeMembers, Bool.and_eq_true] at whole
      simp only [tokensAfterMember, List.cons_append, List.append_assoc]
      rw [readOn_expect rfl, readOn_expect rfl, readOn_expect rfl, readOn_toTokens value _ _ whole.1]
      have others := readOn_tokensAfterMember members ((key, value) :: before) stack rest whole.2
      rw [List.reverse_cons, List.append_assoc] at others
      exact others

end

/-! ## What a reader has taken -/

/-- The tokens of an open array up to the comma after these items, latest first. -/
def tokensOfItems : List Tree → List Token
  | [] => [.openArray]
  | item :: before => tokensOfItems before ++ item.toTokens ++ [.comma]

/-- The tokens of an open object up to the comma after these members, latest first. -/
def tokensOfMembers : List (Option String × Tree) → List Token
  | [] => [.openObject]
  | (key, value) :: before => tokensOfMembers before ++ .string key :: .colon :: value.toTokens ++ [.comma]

theorem toTokens_array (before : List Tree) (item : Tree) (items : List Tree) (closed : Bool) :
    (array (before.reverse ++ item :: items) closed).toTokens =
      tokensOfItems before ++ item.toTokens ++ tokensAfterItem items := by
  induction before generalizing item items with
  | nil => rfl
  | cons last before ih =>
      rw [List.reverse_cons, List.append_assoc, List.singleton_append, ih]
      simp only [tokensAfterItem, tokensOfItems, List.append_assoc, List.cons_append, List.nil_append]

theorem toTokens_object (before : List (Option String × Tree)) (key : Option String) (value : Tree)
    (members : List (Option String × Tree)) (closed : Bool) :
    (object (before.reverse ++ (key, value) :: members) closed).toTokens =
      tokensOfMembers before ++ .string key :: .colon :: value.toTokens ++ tokensAfterMember members := by
  induction before generalizing key value members with
  | nil => rfl
  | cons last before ih =>
      rw [List.reverse_cons, List.append_assoc, List.singleton_append, ih]
      simp only [tokensAfterMember, tokensOfMembers, List.append_assoc, List.cons_append, List.nil_append]

/-- The tokens of an open container up to the value that it waits for. -/
def Context.taken : Context → List Token
  | .item before => tokensOfItems before
  | .member before key => tokensOfMembers before ++ [.string key, .colon]

/-- The tokens of the innermost open container that have been taken when this is expected. No reader expects
    a comma before anything has come. -/
def Expected.taken : Expected → List Token
  | .value => []
  | .valueOrEnd | .commaOrEnd [] => [.openArray]
  | .commaOrEnd (item :: before) => tokensOfItems before ++ item.toTokens
  | .keyOrEnd | .commaOrClose [] => [.openObject]
  | .key members => tokensOfMembers members
  | .colon members name => tokensOfMembers members ++ [.string name]
  | .commaOrClose ((name, content) :: before) =>
      tokensOfMembers before ++ .string name :: .colon :: content.toTokens

/-- All tokens of the open containers around a place, outermost first. -/
def takenAround : List Context → List Token
  | [] => []
  | context :: stack => takenAround stack ++ context.taken

/-- Where a comma is expected, something has come before. -/
def Expected.Begun : Expected → Prop
  | .commaOrEnd items => items ≠ []
  | .commaOrClose members => members ≠ []
  | _ => True

/-- A move has taken these tokens in all. -/
def Move.HasTaken (tokens : List Token) : Move → Prop
  | .expect next stack => next.Begun ∧ takenAround stack ++ next.taken = tokens
  | .finished tree => tree.toTokens = tokens
  | .misfit => True

theorem hasTaken_complete (tree : Tree) (stack : List Context) :
    (complete tree stack).HasTaken (takenAround stack ++ tree.toTokens) := by
  cases stack with
  | nil => rfl
  | cons context stack => cases context with
    | item before =>
        refine ⟨List.cons_ne_nil _ _, ?_⟩
        rw [takenAround, Expected.taken, Context.taken, List.append_assoc]
    | member before key =>
        refine ⟨List.cons_ne_nil _ _, ?_⟩
        simp only [takenAround, Expected.taken, Context.taken, List.append_assoc, List.cons_append,
          List.nil_append]

theorem hasTaken_moveValue (token : Token) (stack : List Context) :
    (moveValue token stack).HasTaken (takenAround stack ++ [token]) := by
  cases token with
  | null => exact hasTaken_complete .null stack
  | bool value => exact hasTaken_complete (.bool value) stack
  | number value => exact hasTaken_complete (.number value) stack
  | string value => exact hasTaken_complete (.string value) stack
  | openArray | openObject => exact ⟨trivial, rfl⟩
  | closeObject | closeArray | comma | colon | invalid => trivial

/-- What was taken before and the token are what has been taken after a move. -/
theorem hasTaken_move {expected : Expected} (begun : expected.Begun) (token : Token)
    (stack : List Context) :
    (move expected token stack).HasTaken (takenAround stack ++ expected.taken ++ [token]) := by
  rw [List.append_assoc]
  cases expected with
  | value => exact hasTaken_moveValue token stack
  | valueOrEnd =>
      have first := hasTaken_moveValue token (.item [] :: stack)
      rw [takenAround, List.append_assoc] at first
      cases token with
      | closeArray => exact hasTaken_complete (.array [] true) stack
      | _ => exact first
  | commaOrEnd items =>
      obtain ⟨item, before, rfl⟩ := List.exists_cons_of_ne_nil begun
      cases token with
      | closeArray =>
          have spelled := toTokens_array before item [] true
          rw [← List.reverse_cons] at spelled
          have done := hasTaken_complete (.array (item :: before).reverse true) stack
          rw [spelled] at done
          exact done
      | comma => exact ⟨trivial, List.append_nil _⟩
      | _ => trivial
  | keyOrEnd => cases token with
    | closeObject => exact hasTaken_complete (.object [] true) stack
    | string name => exact ⟨trivial, rfl⟩
    | _ => trivial
  | key members => cases token with
    | string name => exact ⟨trivial, rfl⟩
    | _ => trivial
  | colon members name => cases token with
    | colon =>
        refine ⟨trivial, ?_⟩
        simp only [takenAround, Context.taken, Expected.taken, List.append_assoc, List.cons_append,
          List.nil_append, List.append_nil]
    | _ => trivial
  | commaOrClose members =>
      obtain ⟨⟨name, value⟩, before, rfl⟩ := List.exists_cons_of_ne_nil begun
      cases token with
      | closeObject =>
          have spelled := toTokens_object before name value [] true
          rw [← List.reverse_cons] at spelled
          have done := hasTaken_complete (.object ((name, value) :: before).reverse true) stack
          rw [spelled] at done
          exact done
      | comma => exact ⟨trivial, rfl⟩
      | _ => trivial

theorem whole_cut {tree : Tree} (broken : tree.whole = false) (stack : List Context) :
    (cut tree stack).whole = false := by
  induction stack generalizing tree with
  | nil => exact broken
  | cons context stack ih => cases context with
    | item before => exact ih (by simp [whole])
    | member before key => exact ih (by simp [whole])

theorem whole_stop (expected : Expected) (stack : List Context) : (stop expected stack).whole = false := by
  cases expected with
  | value => exact whole_cut rfl stack
  | _ => exact whole_cut (by simp [whole]) stack

/-- Together with what was taken before, a reader that finds a whole tree takes the tokens of that tree. -/
theorem toTokens_readOn {expected : Expected} (begun : expected.Begun) (stack : List Context)
    (tokens : List Token) (whole : (readOn expected stack tokens).1.whole = true) :
    (readOn expected stack tokens).1.toTokens ++ (readOn expected stack tokens).2 =
      takenAround stack ++ expected.taken ++ tokens := by
  -- A reader that stops leaves a broken place, so each token was taken by a move.
  induction tokens generalizing expected stack with
  | nil =>
      rw [readOn, whole_stop] at whole
      cases whole
  | cons token tokens ih =>
      have taken := hasTaken_move begun token stack
      rw [readOn] at whole ⊢
      cases moves : move expected token stack with
      | expect next around =>
          rw [moves] at whole taken
          obtain ⟨begun', same⟩ := taken
          rw [ih begun' around whole, same, List.append_assoc, List.singleton_append]
      | finished tree =>
          rw [moves] at taken
          have same : tree.toTokens = takenAround stack ++ expected.taken ++ [token] := taken
          rw [same, List.append_assoc, List.singleton_append]
      | misfit =>
          rw [moves, whole_stop] at whole
          cases whole

/-! ## What a text spells -/

mutual

theorem whole_of_readable : ∀ (tree : Tree) (room : Nat), tree.readable room = true → tree.whole = true
  | .null, _, _ => rfl
  | .bool _, _, _ => rfl
  | .number _, _, _ => rfl
  | .string _, _, _ => rfl
  | .array items closed, room, reads => by
      simp only [readable, Bool.and_eq_true] at reads
      rw [whole, wholeItems_of_readable items (room - 1) reads.1.2, reads.2]
      rfl
  | .object members closed, room, reads => by
      simp only [readable, Bool.and_eq_true] at reads
      rw [whole, wholeMembers_of_readable members (room - 1) reads.1.2, reads.2]
      rfl

theorem wholeItems_of_readable : ∀ (items : List Tree) (room : Nat),
    readableItems room items = true → wholeItems items = true
  | [], _, _ => rfl
  | item :: items, room, reads => by
      simp only [readableItems, Bool.and_eq_true] at reads
      rw [wholeItems, whole_of_readable item room reads.1, wholeItems_of_readable items room reads.2]
      rfl

theorem wholeMembers_of_readable : ∀ (members : List (Option String × Tree)) (room : Nat),
    readableMembers room members = true → wholeMembers members = true
  | [], _, _ => rfl
  | (key, value) :: members, room, reads => by
      simp only [readableMembers, Bool.and_eq_true] at reads
      rw [wholeMembers, whole_of_readable value room reads.1.2, wholeMembers_of_readable members room reads.2]
      rfl

end

theorem readOn_eq_iff {tree : Tree} (whole : tree.whole = true) {tokens rest : List Token} :
    readOn .value [] tokens = (tree, rest) ↔ tokens = tree.toTokens ++ rest := by
  constructor
  · intro reads
    have taken := @toTokens_readOn .value trivial [] tokens
    rw [reads] at taken
    exact (taken whole).symm
  · rintro rfl
    exact readOn_toTokens tree [] rest whole

end Tree

/-- A text is spelled as this tree: it has the tokens of the tree and no others. -/
structure Spells (text : String) (tree : Tree) : Prop where
  whole : tree.whole = true
  tokens : tokens text.toList = tree.toTokens

theorem spells_iff {text : String} {tree : Tree} :
    Spells text tree ↔ tree.whole = true ∧ Tree.ofTokens (tokens text.toList) = (tree, []) := by
  constructor
  · rintro ⟨whole, same⟩
    exact ⟨whole, (Tree.readOn_eq_iff whole).mpr (by rw [same, List.append_nil])⟩
  · rintro ⟨whole, reads⟩
    refine ⟨whole, ?_⟩
    have same := (Tree.readOn_eq_iff whole).mp reads
    rwa [List.append_nil] at same

theorem Spells.unique {text : String} {tree other : Tree} (spells : Spells text tree)
    (spells' : Spells text other) : tree = other := by
  obtain ⟨-, found⟩ := spells_iff.mp spells
  obtain ⟨-, found'⟩ := spells_iff.mp spells'
  rw [found] at found'
  exact congrArg Prod.fst found'

theorem Spells.readText_eq {ε α : Type} {text : String} {tree : Tree} (spells : Spells text tree)
    (read : Tree → Reading ε α) : readText read text = read tree := by
  obtain ⟨-, found⟩ := spells_iff.mp spells
  rw [readText, found]
  exact bind_pure _

end Paycard.Json
