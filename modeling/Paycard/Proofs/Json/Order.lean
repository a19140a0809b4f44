import Mathlib.Logic.Relation
import Paycard.Proofs.Json.RoundTrip
import Paycard.Proofs.Lookup

/-! # The order of members

A text in which no object has a key twice writes a value that does not depend on the order of the members
in its objects. Under each key that value has what stands under the key in the text.
-/

namespace Paycard.Json

/-! ## Members with different keys -/

theorem insertMember_same (key : String) (value v : Json) (rest : List (String × Json)) :
    insertMember key value ((key, v) :: rest) = (key, value) :: rest := by
  rw [insertMember, if_pos rfl]

theorem insertMember_comm_of_lt {key k : String} (before : key < k) (value v : Json)
    (members : List (String × Json)) :
    insertMember key value (insertMember k v members) = insertMember k v (insertMember key value members) := by
  induction members with
  | nil =>
      rw [insertMember_nil, insertMember_nil, insertMember_of_lt before, insertMember_of_gt before,
        insertMember_nil]
  | cons member members ih =>
      obtain ⟨first, w⟩ := member
      rcases Std.lt_trichotomy first k with below | rfl | above
      · rw [insertMember_of_gt below]
        rcases Std.lt_trichotomy first key with lower | rfl | higher
        · rw [insertMember_of_gt lower, insertMember_of_gt lower, insertMember_of_gt below, ih]
        · rw [insertMember_same, insertMember_same, insertMember_of_gt before]
        · rw [insertMember_of_lt higher, insertMember_of_lt higher, insertMember_of_gt before,
            insertMember_of_gt below]
      · rw [insertMember_same, insertMember_of_lt before, insertMember_of_lt before,
          insertMember_of_gt before, insertMember_same]
      · have higher := String.lt_trans before above
        rw [insertMember_of_lt above, insertMember_of_lt before, insertMember_of_lt higher,
          insertMember_of_gt before, insertMember_of_lt above]

theorem insertMember_comm {key k : String} (different : key ≠ k) (value v : Json)
    (members : List (String × Json)) :
    insertMember key value (insertMember k v members) = insertMember k v (insertMember key value members) := by
  rcases Std.lt_trichotomy key k with before | same | after
  · exact insertMember_comm_of_lt before value v members
  · exact absurd same different
  · exact (insertMember_comm_of_lt after v value members).symm

theorem perm_insertMember {key : String} {members : List (String × Json)}
    (absent : key ∉ members.map Prod.fst) (value : Json) :
    (insertMember key value members).Perm ((key, value) :: members) := by
  induction members with
  | nil => exact .refl _
  | cons member members ih =>
      obtain ⟨elsewhere, later⟩ := List.ne_and_not_mem_of_not_mem_cons absent
      rw [insertMember, if_neg (Ne.symm elsewhere)]
      split
      · exact .refl _
      · exact ((ih later).cons member).trans (.swap (key, value) member members)

section Distinct

variable {members : List (String × Json)} (distinct : (members.map Prod.fst).Nodup)
include distinct

theorem perm_sortMembers : (sortMembers members).Perm members := by
  -- The fold goes from the first member to the last, so the induction takes the last one off.
  induction members using List.reverseRecOn with
  | nil => exact .refl _
  | append_singleton members member ih =>
      rw [List.map_append, List.nodup_append] at distinct
      obtain ⟨before, -, apart⟩ := distinct
      have absent : member.1 ∉ (sortMembers members).map Prod.fst := by
        intro earlier
        exact apart _ (((ih before).map Prod.fst).mem_iff.mp earlier) member.1 (by simp) rfl
      have placed : sortMembers (members ++ [member]) =
          insertMember member.1 member.2 (sortMembers members) := by
        simp only [sortMembers, List.foldl_append, List.foldl_cons, List.foldl_nil]
      rw [placed]
      have first := perm_insertMember absent member.2
      have moved := List.perm_append_singleton member members
      exact (first.trans ((ih before).cons member)).trans moved.symm

theorem sortMembers_perm {others : List (String × Json)} (perm : members.Perm others) :
    sortMembers members = sortMembers others := by
  refine perm.foldl_eq' (fun first here second there sorted => ?_) []
  by_cases same : first = second
  · rw [same]
  · have different : second.1 ≠ first.1 := by
      intro keys
      exact same (List.inj_on_of_nodup_map distinct here there keys.symm)
    exact insertMember_comm different second.2 first.2 sorted

theorem lookup_sortMembers_of_distinct (key : String) :
    (sortMembers members).lookup key = members.lookup key := by
  have perm := perm_sortMembers distinct
  exact lookup_perm ((perm.map Prod.fst).nodup_iff.mpr distinct) perm key

end Distinct

/-! ## Trees without repeated keys -/

namespace Tree

/-- The keys of members, in the order of the text. -/
def keys (members : List (Option String × Tree)) : List String := members.filterMap Prod.fst

theorem keys_cons (key : String) (value : Tree) (members : List (Option String × Tree)) :
    keys ((some key, value) :: members) = key :: keys members := rfl

theorem keys_perm {members others : List (Option String × Tree)} (perm : members.Perm others) :
    (keys members).Perm (keys others) := perm.filterMap Prod.fst

theorem lookup_eq_none_of_not_mem_keys {members : List (Option String × Tree)} {key : String}
    (absent : key ∉ keys members) : members.lookup (some key) = none := by
  rw [List.lookup_eq_none_iff]
  intro member here
  rw [bne_iff_ne]
  intro same
  exact absent (List.mem_filterMap.mpr ⟨member, here, same.symm⟩)

mutual

/-- No object in a tree has a key twice. -/
def Unrepeated : Tree → Prop
  | .array items _ => UnrepeatedItems items
  | .object members _ => (keys members).Nodup ∧ UnrepeatedMembers members
  | _ => True

def UnrepeatedItems : List Tree → Prop
  | [] => True
  | item :: items => item.Unrepeated ∧ UnrepeatedItems items

def UnrepeatedMembers : List (Option String × Tree) → Prop
  | [] => True
  | (_, value) :: members => value.Unrepeated ∧ UnrepeatedMembers members

end

theorem readableItems_iff {room : Nat} {items : List Tree} :
    readableItems room items = true ↔ ∀ item ∈ items, item.readable room = true := by
  induction items with
  | nil => simp [readableItems]
  | cons item items ih => simp [readableItems, ih]

theorem readableMembers_iff {room : Nat} {members : List (Option String × Tree)} :
    readableMembers room members = true ↔
      ∀ member ∈ members, member.1.isSome = true ∧ member.2.readable room = true := by
  induction members with
  | nil => simp [readableMembers]
  | cons member members ih => simp [readableMembers, ih]

theorem unrepeatedItems_iff {items : List Tree} :
    UnrepeatedItems items ↔ ∀ item ∈ items, item.Unrepeated := by
  induction items with
  | nil => simp [UnrepeatedItems]
  | cons item items ih => simp [UnrepeatedItems, ih]

theorem unrepeatedMembers_iff {members : List (Option String × Tree)} :
    UnrepeatedMembers members ↔ ∀ member ∈ members, member.2.Unrepeated := by
  induction members with
  | nil => simp [UnrepeatedMembers]
  | cons member members ih => simp [UnrepeatedMembers, ih]

/-- A tree that can be taken as a value, with no more than `room` containers one inside another, and in
    which no object has a key twice. -/
structure Plain (room : Nat) (tree : Tree) : Prop where
  readable : tree.readable room = true
  unrepeated : tree.Unrepeated

theorem plain_array_iff {room : Nat} {items : List Tree} {closed : Bool} :
    (array items closed).Plain room ↔
      0 < room ∧ closed = true ∧ ∀ item ∈ items, item.Plain (room - 1) := by
  constructor
  · rintro ⟨reads, once⟩
    simp only [readable, Bool.and_eq_true, decide_eq_true_eq, readableItems_iff] at reads
    rw [Unrepeated, unrepeatedItems_iff] at once
    exact ⟨reads.1.1, reads.2, fun item member => ⟨reads.1.2 item member, once item member⟩⟩
  · rintro ⟨within, rfl, plain⟩
    constructor
    · simp only [readable, Bool.and_eq_true, decide_eq_true_eq, readableItems_iff]
      exact ⟨⟨within, fun item member => (plain item member).readable⟩, trivial⟩
    · exact unrepeatedItems_iff.mpr fun item member => (plain item member).unrepeated

theorem plain_object_iff {room : Nat} {members : List (Option String × Tree)} {closed : Bool} :
    (object members closed).Plain room ↔ 0 < room ∧ closed = true ∧ (keys members).Nodup ∧
      ∀ member ∈ members, member.1.isSome = true ∧ member.2.Plain (room - 1) := by
  constructor
  · rintro ⟨reads, distinct, once⟩
    simp only [readable, Bool.and_eq_true, decide_eq_true_eq, readableMembers_iff] at reads
    rw [unrepeatedMembers_iff] at once
    refine ⟨reads.1.1, reads.2, distinct, fun member here => ?_⟩
    exact ⟨(reads.1.2 member here).1, (reads.1.2 member here).2, once member here⟩
  · rintro ⟨within, rfl, distinct, plain⟩
    constructor
    · simp only [readable, Bool.and_eq_true, decide_eq_true_eq, readableMembers_iff]
      exact ⟨⟨within, fun member here => ⟨(plain member here).1, (plain member here).2.readable⟩⟩, trivial⟩
    · exact ⟨distinct, unrepeatedMembers_iff.mpr fun member here => (plain member here).2.unrepeated⟩

theorem plain_of_lookup {room : Nat} {members : List (Option String × Tree)}
    (plain : ∀ member ∈ members, member.1.isSome = true ∧ member.2.Plain room) {key : Option String}
    {value : Tree} (stands : members.lookup key = some value) : value.Plain room := by
  obtain ⟨before, after, rfl, -⟩ := List.lookup_eq_some_iff.mp stands
  exact (plain (key, value) (by simp)).2

/-! ## The value of a tree -/

theorem toItems_eq_map (items : List Tree) : toItems items = items.map toJson := by
  induction items with
  | nil => rfl
  | cons item items ih => rw [toItems, ih, List.map_cons]

theorem toMembers_eq_filterMap (members : List (Option String × Tree)) :
    toMembers members = members.filterMap fun member => member.1.map (·, member.2.toJson) := by
  induction members with
  | nil => rfl
  | cons member members ih =>
      obtain ⟨_ | key, value⟩ := member
      · rw [toMembers, ih]
        rfl
      · rw [toMembers, ih]
        rfl

theorem fst_toMembers (members : List (Option String × Tree)) :
    (toMembers members).map Prod.fst = keys members := by
  rw [toMembers_eq_filterMap, List.map_filterMap, keys]
  congr
  funext member
  cases member.1 <;> rfl

theorem lookup_toMembers (members : List (Option String × Tree)) (key : String) :
    (toMembers members).lookup key = (members.lookup (some key)).map toJson := by
  induction members with
  | nil => rfl
  | cons member members ih =>
      obtain ⟨_ | k, value⟩ := member
      · rw [toMembers, ih, lookup_cons_of_ne (by simp)]
      · rw [toMembers, lookup_member, ih]
        split
        case isTrue here => simp [here]
        case isFalse elsewhere => rw [lookup_cons_of_ne (by simpa using elsewhere)]

theorem lookup_toJson {members : List (Option String × Tree)} (distinct : (keys members).Nodup)
    (key : String) :
    (sortMembers (toMembers members)).lookup key = (members.lookup (some key)).map toJson := by
  rw [lookup_sortMembers_of_distinct (by rwa [fst_toMembers]), lookup_toMembers]

/-- An object has a single member in its value only if it has that member alone in the text. -/
theorem eq_singleton_of_toMembers {members : List (Option String × Tree)} {key : String} {value : Json}
    (keyed : ∀ member ∈ members, member.1.isSome = true) (single : toMembers members = [(key, value)]) :
    ∃ tree : Tree, members = [(some key, tree)] ∧ tree.toJson = value := by
  match members, keyed, single with
  | [(some k, tree)], _, single =>
      simp only [toMembers, List.cons.injEq, Prod.mk.injEq, and_true] at single
      obtain ⟨rfl, same⟩ := single
      exact ⟨tree, rfl, same⟩
  | (some k, tree) :: (some k', tree') :: rest, _, single => simp [toMembers] at single
  | (some k, tree) :: (none, tree') :: rest, keyed, _ => simp at keyed
  | (none, tree) :: rest, keyed, _ => simp at keyed

theorem eq_null_of_toJson {room : Nat} {tree : Tree} (plain : tree.Plain room) (null : tree.toJson = .null) :
    tree = .null := by
  cases tree with
  | null => rfl
  | number value => cases value with
    | none => exact absurd plain.readable (by simp [readable])
    | some number => cases null
  | string value => cases value with
    | none => exact absurd plain.readable (by simp [readable])
    | some text => cases null
  | broken => exact absurd plain.readable (by simp [readable])
  | bool _ | array _ _ | object _ _ => cases null

/-! ## Trees with their members in another order -/

/-- One tree is the other with the members of one of its objects in another order. -/
inductive Reordered : Tree → Tree → Prop where
  | members {members others : List (Option String × Tree)} {closed : Bool} (perm : members.Perm others) :
      Reordered (.object members closed) (.object others closed)
  | item {before after : List Tree} {tree other : Tree} {closed : Bool} (inside : Reordered tree other) :
      Reordered (.array (before ++ tree :: after) closed) (.array (before ++ other :: after) closed)
  | member {before after : List (Option String × Tree)} {key : Option String} {tree other : Tree}
      {closed : Bool} (inside : Reordered tree other) :
      Reordered (.object (before ++ (key, tree) :: after) closed)
        (.object (before ++ (key, other) :: after) closed)

theorem Reordered.plain {tree other : Tree} (reordered : Reordered tree other) {room : Nat}
    (plain : tree.Plain room) : other.Plain room := by
  induction reordered generalizing room with
  | members perm =>
      obtain ⟨within, closed, distinct, inner⟩ := plain_object_iff.mp plain
      refine plain_object_iff.mpr ⟨within, closed, (keys_perm perm).nodup distinct, ?_⟩
      intro member here
      exact inner member (perm.mem_iff.mpr here)
  | item inside ih =>
      rw [plain_array_iff, List.forall_mem_append, List.forall_mem_cons] at plain ⊢
      obtain ⟨within, closed, before, here, after⟩ := plain
      exact ⟨within, closed, before, ih here, after⟩
  | member inside ih =>
      rw [plain_object_iff, List.forall_mem_append, List.forall_mem_cons] at plain ⊢
      obtain ⟨within, closed, distinct, before, ⟨keyed, here⟩, after⟩ := plain
      refine ⟨within, closed, ?_, before, ⟨keyed, ih here⟩, after⟩
      rwa [keys, List.filterMap_append, List.filterMap_cons] at distinct ⊢

theorem Reordered.toJson_eq {tree other : Tree} (reordered : Reordered tree other) {room : Nat}
    (plain : tree.Plain room) : tree.toJson = other.toJson := by
  induction reordered generalizing room with
  | members perm =>
      obtain ⟨-, -, distinct, -⟩ := plain_object_iff.mp plain
      rw [toJson, toJson]
      congr 1
      apply sortMembers_perm
      · rwa [fst_toMembers]
      · rw [toMembers_eq_filterMap, toMembers_eq_filterMap]
        exact perm.filterMap _
  | item inside ih =>
      rw [plain_array_iff, List.forall_mem_append, List.forall_mem_cons] at plain
      obtain ⟨-, -, -, here, -⟩ := plain
      simp only [toJson, toItems_eq_map, List.map_append, List.map_cons, ih here]
  | member inside ih =>
      rw [plain_object_iff, List.forall_mem_append, List.forall_mem_cons] at plain
      obtain ⟨-, -, -, -, ⟨-, here⟩, -⟩ := plain
      simp only [toJson, toMembers_eq_filterMap, List.filterMap_append, List.filterMap_cons, ih here]

/-- However often members are put in another order, the value stays. -/
theorem plain_and_toJson_eq_of_reordered {tree other : Tree}
    (reordered : Relation.ReflTransGen Reordered tree other) {room : Nat} (plain : tree.Plain room) :
    other.Plain room ∧ other.toJson = tree.toJson := by
  induction reordered with
  | refl => exact ⟨plain, rfl⟩
  | tail _ last ih =>
      obtain ⟨plain, same⟩ := ih
      exact ⟨last.plain plain, (last.toJson_eq plain).symm.trans same⟩

end Tree

/-! ## Texts without repeated keys -/

theorem ofText?_eq_some_iff {text : String} {value : Json} : ofText? text = some value ↔
    ∃ tree : Tree, Spells text tree ∧ tree.readable maxDepth = true ∧ tree.toJson = value := by
  rw [ofText?]
  constructor
  · intro reads
    split at reads
    case h_1 tree found =>
      rw [Option.ite_none_right_eq_some, Option.some.injEq] at reads
      obtain ⟨readable, same⟩ := reads
      exact ⟨tree, spells_iff.mpr ⟨Tree.whole_of_readable tree maxDepth readable, found⟩, readable, same⟩
    case h_2 => cases reads
  · rintro ⟨tree, spells, readable, rfl⟩
    obtain ⟨-, found⟩ := spells_iff.mp spells
    simp only [found, if_pos readable]

/-- A text writes this value, and no object in it has a key twice. -/
structure WritesPlainly (text : String) (value : Json) : Prop where
  value : ofText? text = some value
  unrepeated {tree : Tree} (spells : Spells text tree) : tree.Unrepeated

theorem writesPlainly_iff {text : String} {value : Json} : WritesPlainly text value ↔
    ∃ tree : Tree, Spells text tree ∧ tree.Plain maxDepth ∧ tree.toJson = value := by
  constructor
  · rintro ⟨writes, unrepeated⟩
    obtain ⟨tree, spells, readable, same⟩ := ofText?_eq_some_iff.mp writes
    exact ⟨tree, spells, ⟨readable, unrepeated spells⟩, same⟩
  · rintro ⟨tree, spells, plain, same⟩
    refine ⟨ofText?_eq_some_iff.mpr ⟨tree, spells, plain.readable, same⟩, fun spells' => ?_⟩
    rw [spells'.unique spells]
    exact plain.unrepeated

/-- The second text is spelled as the tree of the first one after changes of some kind. -/
def Changed (change : Tree → Tree → Prop) (text other : String) : Prop :=
  ∃ tree tree' : Tree, Spells text tree ∧ Spells other tree' ∧ Relation.ReflTransGen change tree tree'

/-- The second text is the first one with the members of any of its objects in another order. -/
def Rearranged : String → String → Prop := Changed Tree.Reordered

/-- With its members rearranged a text still writes the same value. -/
theorem Rearranged.writesPlainly {text other : String} (rearranged : Rearranged text other) {value : Json}
    (writes : WritesPlainly text value) : WritesPlainly other value := by
  obtain ⟨tree, spells, plain, rfl⟩ := writesPlainly_iff.mp writes
  obtain ⟨tree', other', spells', spellsOther, reordered⟩ := rearranged
  obtain rfl := spells'.unique spells
  obtain ⟨plainOther, same⟩ := Tree.plain_and_toJson_eq_of_reordered reordered plain
  exact writesPlainly_iff.mpr ⟨other', spellsOther, plainOther, same⟩

theorem writesPlainly_render {value : Json} (writable : value.Writable maxDepth)
    (unrepeated : value.toTree.Unrepeated) : WritesPlainly value.render value.sorted :=
  writesPlainly_iff.mpr ⟨value.toTree, spells_render writable,
    ⟨Tree.readable_toTree value maxDepth writable, unrepeated⟩, Tree.toJson_toTree value⟩

end Paycard.Json
