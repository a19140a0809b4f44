import Mathlib.Data.List.Induction
import Paycard.Proofs.Json.Spelling
import Paycard.Proofs.Json.Tokens

/-! # Reading printed values

The text of a value is read back as that value, as long as its containers do not stand too deep one
inside another. What is read has its members in key order; a key has the value that stood last under it.
-/

namespace Paycard.Json

/-! ## Trees -/

mutual

/-- The tree of a printed value. -/
def toTree : Json → Tree
  | .null => .null
  | .bool value => .bool value
  | .number value => .number (some value)
  | .string value => .string (some value)
  | .array items => .array (toTrees items) true
  | .object members => .object (toMemberTrees members) true

def toTrees : List Json → List Tree
  | [] => []
  | item :: items => item.toTree :: toTrees items

def toMemberTrees : List (String × Json) → List (Option String × Tree)
  | [] => []
  | (key, value) :: members => (some key, value.toTree) :: toMemberTrees members

end

theorem toTrees_eq_map (items : List Json) : toTrees items = items.map toTree := by
  induction items with
  | nil => rfl
  | cons item items ih => rw [toTrees, ih, List.map_cons]

namespace Tree

mutual

/-- A printed value has the tokens of its tree. -/
theorem toTokens_toTree : ∀ value : Json, value.toTree.toTokens = value.toTokens
  | .null => rfl
  | .bool _ => rfl
  | .number _ => rfl
  | .string _ => rfl
  | .array [] => rfl
  | .array (item :: items) => by
      simp only [toTree, toTrees, toTokens, Json.toTokens, toTokens_toTree item, tokensAfterItem_toTrees items]
  | .object [] => rfl
  | .object ((key, value) :: members) => by
      simp only [toTree, toMemberTrees, toTokens, Json.toTokens, toTokens_toTree value,
        tokensAfterMember_toMemberTrees members]

theorem tokensAfterItem_toTrees : ∀ items : List Json,
    tokensAfterItem (toTrees items) = Json.tokensAfterItem items
  | [] => rfl
  | item :: items => by
      rw [toTrees, tokensAfterItem, Json.tokensAfterItem, toTokens_toTree item, tokensAfterItem_toTrees items]

theorem tokensAfterMember_toMemberTrees : ∀ members : List (String × Json),
    tokensAfterMember (toMemberTrees members) = Json.tokensAfterMember members
  | [] => rfl
  | (key, value) :: members => by
      rw [toMemberTrees, tokensAfterMember, Json.tokensAfterMember, toTokens_toTree value,
        tokensAfterMember_toMemberTrees members]

end

mutual

theorem readable_toTree : ∀ (value : Json) (room : Nat), value.Writable room →
    value.toTree.readable room = true
  | .null, _, _ => rfl
  | .bool _, _, _ => rfl
  | .number _, _, _ => rfl
  | .string _, _, _ => rfl
  | .array items, room, ⟨within, all⟩ => by
      rw [toTree, readable, readableItems_toTrees items _ all]
      simp [within]
  | .object members, room, ⟨within, all⟩ => by
      rw [toTree, readable, readableMembers_toMemberTrees members _ all]
      simp [within]

theorem readableItems_toTrees : ∀ (items : List Json) (room : Nat), WritableItems room items →
    readableItems room (toTrees items) = true
  | [], _, _ => rfl
  | item :: items, room, ⟨first, others⟩ => by
      rw [toTrees, readableItems, readable_toTree item room first, readableItems_toTrees items room others]
      rfl

theorem readableMembers_toMemberTrees : ∀ (members : List (String × Json)) (room : Nat),
    WritableMembers room members → readableMembers room (toMemberTrees members) = true
  | [], _, _ => rfl
  | (key, value) :: members, room, ⟨first, others⟩ => by
      rw [toMemberTrees, readableMembers, readable_toTree value room first,
        readableMembers_toMemberTrees members room others]
      rfl

end

mutual

theorem toJson_toTree : ∀ value : Json, value.toTree.toJson = value.sorted
  | .null => rfl
  | .bool _ => rfl
  | .number _ => rfl
  | .string _ => rfl
  | .array items => by rw [Json.toTree, toJson, sorted, toItems_toTrees items]
  | .object members => by rw [Json.toTree, toJson, sorted, toMembers_toMemberTrees members]

theorem toItems_toTrees : ∀ items : List Json, toItems (toTrees items) = sortedItems items
  | [] => rfl
  | item :: items => by rw [toTrees, toItems, sortedItems, toJson_toTree item, toItems_toTrees items]

theorem toMembers_toMemberTrees : ∀ members : List (String × Json),
    toMembers (toMemberTrees members) = sortedMembers members
  | [] => rfl
  | (key, value) :: members => by
      rw [toMemberTrees, toMembers, sortedMembers, toJson_toTree value, toMembers_toMemberTrees members]

end

end Tree

/-- White space after a printed value does not count. -/
theorem ofTokens_render_append {value : Json} (writable : value.Writable maxDepth) (rest : List Char)
    (stops : Stops rest) (blank : tokens rest = []) :
    Tree.ofTokens (tokens (value.render.toList ++ rest)) = (value.toTree, []) := by
  have whole := Tree.whole_of_readable value.toTree maxDepth (Tree.readable_toTree value maxDepth writable)
  apply (Tree.readOn_eq_iff whole).mpr
  rw [render, String.toList_ofList, tokens_chars value maxDepth rest writable stops, blank,
    Tree.toTokens_toTree]

theorem ofTokens_render {value : Json} (writable : value.Writable maxDepth) :
    Tree.ofTokens (tokens value.render.toList) = (value.toTree, []) := by
  have read := ofTokens_render_append writable [] (by simp [Stops]) (by rw [tokens, tokensWith])
  rwa [List.append_nil] at read

/-- A printed value is spelled as its tree. -/
theorem spells_render {value : Json} (writable : value.Writable maxDepth) :
    Spells value.render value.toTree := by
  have readable := Tree.readable_toTree value maxDepth writable
  exact spells_iff.mpr ⟨Tree.whole_of_readable value.toTree maxDepth readable, ofTokens_render writable⟩

/-- The text of a value is read back as the value, with its members in key order. -/
theorem ofText?_render {value : Json} (writable : value.Writable maxDepth) :
    ofText? value.render = some value.sorted := by
  simp only [ofText?, ofTokens_render writable, Tree.readable_toTree value maxDepth writable, if_pos,
    Tree.toJson_toTree]

theorem readText_render {ε α : Type} (read : Tree → Reading ε α) {value : Json}
    (writable : value.Writable maxDepth) : readText read value.render = read value.toTree :=
  (spells_render writable).readText_eq read

/-! ## Members in key order -/

theorem lookup_member (key k : String) (value : Json) (members : List (String × Json)) :
    ((k, value) :: members).lookup key = if key = k then some value else members.lookup key := by
  rw [List.lookup_cons]
  split
  · rename_i same
    rw [if_pos (beq_iff_eq.mp same)]
  · rename_i different
    rw [if_neg (beq_eq_false_iff_ne.mp different)]

theorem insertMember_nil (key : String) (value : Json) : insertMember key value [] = [(key, value)] := rfl

theorem insertMember_of_lt {key k : String} (before : key < k) (value v : Json)
    (rest : List (String × Json)) :
    insertMember key value ((k, v) :: rest) = (key, value) :: (k, v) :: rest := by
  rw [insertMember, if_neg (String.ne_of_lt before).symm, if_pos before]

theorem insertMember_of_gt {key k : String} (after : k < key) (value v : Json)
    (rest : List (String × Json)) :
    insertMember key value ((k, v) :: rest) = (k, v) :: insertMember key value rest := by
  rw [insertMember, if_neg (String.ne_of_lt after), if_neg (String.lt_asymm after)]

theorem lookup_insertMember (key k : String) (value : Json) (members : List (String × Json)) :
    (insertMember k value members).lookup key = if key = k then some value else members.lookup key := by
  induction members with
  | nil => rw [insertMember, lookup_member]
  | cons member members ih =>
      obtain ⟨first, v⟩ := member
      rw [insertMember]
      split
      · rename_i replaced
        subst replaced
        rw [lookup_member, lookup_member]
        split <;> rfl
      · split
        · rw [lookup_member]
        · rename_i different _
          rw [lookup_member, lookup_member, ih]
          by_cases here : key = first
          · rw [if_pos here, if_pos here, if_neg (here ▸ different)]
          · rw [if_neg here, if_neg here]

/-- Among members in key order a key has the value that stood last under it. -/
theorem lookup_sortMembers (members : List (String × Json)) (key : String) :
    (sortMembers members).lookup key = members.reverse.lookup key := by
  -- The fold goes from the first member to the last, so the induction takes the last one off.
  induction members using List.reverseRecOn with
  | nil => rfl
  | append_singleton members member ih =>
      obtain ⟨k, value⟩ := member
      rw [sortMembers, List.foldl_append, List.foldl_cons, List.foldl_nil, lookup_insertMember,
        List.reverse_append, List.reverse_singleton, List.singleton_append, lookup_member, ← ih]
      rfl

theorem sortedMembers_eq_map (members : List (String × Json)) :
    sortedMembers members = members.map fun member => (member.1, member.2.sorted) := by
  induction members with
  | nil => rfl
  | cons member members ih => rw [sortedMembers, ih, List.map_cons]

theorem sortedItems_eq_map (items : List Json) : sortedItems items = items.map sorted := by
  induction items with
  | nil => rfl
  | cons item items ih => rw [sortedItems, ih, List.map_cons]

/-- A member that no later one replaces is found among the members in key order. -/
theorem lookup_sorted {before after : List (String × Json)} {key : String} (value : Json)
    (last : ∀ member ∈ after, member.1 ≠ key) :
    (sortMembers (sortedMembers (before ++ (key, value) :: after))).lookup key = some value.sorted := by
  rw [lookup_sortMembers, sortedMembers_eq_map, List.map_append, List.map_cons, List.reverse_append,
    List.reverse_cons, List.append_assoc, List.singleton_append, List.lookup_eq_some_iff]
  refine ⟨_, _, rfl, ?_⟩
  intro member found
  simp only [List.mem_reverse, List.mem_map] at found
  obtain ⟨original, later, rfl⟩ := found
  exact bne_iff_ne.mpr fun same => last original later same.symm

end Paycard.Json
