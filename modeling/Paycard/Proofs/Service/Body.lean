import Paycard.Proofs.Json.Grammar
import Paycard.Proofs.Json.RoundTrip
import Paycard.Proofs.Service.MediaType
import Paycard.Service.Handler

/-! # Which bodies are accepted

A body is accepted if its content type says JSON, it is not too large, and it starts with an object that has
the wanted member, or with an array of just that string. Anything else is turned away, and the status tells
the first thing that is wrong.
-/

namespace Paycard.Service

open Json (StartsWith Tree tokensOfBytes)

/-! ## The shape of a body -/

/-- A member that is read over: it has another name and some value. -/
structure IsBeside (name : String) (member : Option String × Tree) : Prop where
  named : ∃ key, member.1 = some key ∧ key ≠ name
  whole : member.2.whole = true

/-- The value of a body that gives this text: an object with one string member of the name, or an array of
    that string. -/
inductive Gives (name text : String) : Tree → Prop where
  | object {before after : List (Option String × Tree)} :
      (∀ member ∈ before, IsBeside name member) → (∀ member ∈ after, IsBeside name member) →
      Gives name text (.object (before ++ (some name, .string (some text)) :: after) true)
  | array : Gives name text (.array [.string (some text)] true)

/-- A value that is no string. A container is not looked into. -/
inductive NoString : Tree → Prop where
  | null : NoString .null
  | bool (value : Bool) : NoString (.bool value)
  | number (value : Json.Number) : NoString (.number (some value))
  | array (items : List Tree) (closed : Bool) : NoString (.array items closed)
  | object (members : List (Option String × Tree)) (closed : Bool) : NoString (.object members closed)

/-- The value of a body of another shape, read up to the place that shows it: a value that is no container,
    an array without a string in front, or an object whose member of the name is missing, is no string, or
    comes again. -/
inductive Misshapen (name : String) : Tree → Prop where
  | null : Misshapen name .null
  | bool (value : Bool) : Misshapen name (.bool value)
  | number (value : Json.Number) : Misshapen name (.number (some value))
  | string (value : String) : Misshapen name (.string (some value))
  | empty : Misshapen name (.array [] true)
  | item {item : Tree} (items : List Tree) (closed : Bool) : NoString item →
      Misshapen name (.array (item :: items) closed)
  | missing {members : List (Option String × Tree)} : (∀ member ∈ members, IsBeside name member) →
      Misshapen name (.object members true)
  | member {before : List (Option String × Tree)} {value : Tree} (after : List (Option String × Tree))
      (closed : Bool) : (∀ member ∈ before, IsBeside name member) → NoString value →
      Misshapen name (.object (before ++ (some name, value) :: after) closed)
  | repeated {before between : List (Option String × Tree)} (text : String) (again : Tree)
      (after : List (Option String × Tree)) (closed : Bool) :
      (∀ member ∈ before, IsBeside name member) → (∀ member ∈ between, IsBeside name member) →
      Misshapen name (.object
        (before ++ (some name, .string (some text)) :: (between ++ (some name, again) :: after)) closed)

/-- The content type of a request says that its body is JSON. -/
def SaysJson (contentType : Option String) : Prop := ∃ header, contentType = some header ∧ NamesJson header

/-- A body that is an object with one string member. -/
def memberBody (name text : String) : String := (Json.object [(name, .string text)]).render

/-- A body that is accepted with this text as its member of the name. What comes after the value does not
    count. -/
structure Carries (name : String) (contentType : Option String) (body : Body) (text : String) : Prop where
  json : SaysJson contentType
  fits : body.bytes.size ≤ 2097152
  starts : ∃ tree, Gives name text tree ∧ StartsWith tree.toTokens (body.bytes.data.toList.map Char.ofUInt8)

/-- A body that is turned away with this status and for this cause. -/
inductive Refuses (name : String) (contentType : Option String) (body : Body) : Nat → Rejection → Prop where
  | notJsonType : ¬ SaysJson contentType → Refuses name contentType body 415 .notJsonType
  | tooLarge : SaysJson contentType → 2097152 < body.bytes.size → Refuses name contentType body 413 .tooLarge
  | wrongShape : SaysJson contentType → body.bytes.size ≤ 2097152 → Misshapen name (Tree.ofBytes body.bytes) →
      Refuses name contentType body 422 .wrongShape
  | notJson : SaysJson contentType → body.bytes.size ≤ 2097152 → ¬ Misshapen name (Tree.ofBytes body.bytes) →
      (∀ text, ¬ Carries name contentType body text) → Refuses name contentType body 400 .notJson

/-! ## Members -/

section Members

variable {name : String}

theorem readMembers_append_of_beside {before : List (Option String × Tree)}
    (beside : ∀ member ∈ before, IsBeside name member) (draft : Option String)
    (rest : List (Option String × Tree)) :
    Tree.readMembers (readPart name) draft (before ++ rest) = Tree.readMembers (readPart name) draft rest := by
  induction before with
  | nil => rfl
  | cons member before ih =>
      obtain ⟨here, later⟩ := List.forall_mem_cons.mp beside
      obtain ⟨_, value⟩ := member
      obtain ⟨⟨key, rfl, other⟩, whole⟩ := here
      have skipped : readPart name draft key value = .ok draft := by
        rw [readPart, if_neg other, Tree.skip, if_pos whole]
        rfl
      rw [List.cons_append, Tree.readMembers, skipped, ← ih later]
      rfl

theorem readMembers_of_beside {members : List (Option String × Tree)}
    (beside : ∀ member ∈ members, IsBeside name member) (draft : Option String) :
    Tree.readMembers (readPart name) draft members = .ok draft := by
  have read := readMembers_append_of_beside beside draft []
  rwa [List.append_nil] at read

/-- A list of members goes up to the first that is not read over. -/
theorem exists_beside_append (name : String) (members : List (Option String × Tree)) :
    ∃ before rest, members = before ++ rest ∧ (∀ member ∈ before, IsBeside name member) ∧
      ∀ member ∈ rest.head?, ¬ IsBeside name member := by
  induction members with
  | nil => exact ⟨[], [], rfl, by simp, by simp⟩
  | cons member members ih =>
      by_cases beside : IsBeside name member
      · obtain ⟨before, rest, rfl, all, stop⟩ := ih
        exact ⟨member :: before, rest, rfl, List.forall_mem_cons.mpr ⟨beside, all⟩, stop⟩
      · exact ⟨[], member :: members, rfl, by simp, by simpa using beside⟩

/-- At a member that is not read over, the grammar is broken, or it is the member of the name. -/
theorem readMembers_cons_cases {member : Option String × Tree} (stop : ¬ IsBeside name member)
    (draft : Option String) (after : List (Option String × Tree)) :
    Tree.readMembers (readPart name) draft (member :: after) = .error .notJson ∨
      ∃ value, member = (some name, value) := by
  obtain ⟨key, value⟩ := member
  cases key with
  | none => exact .inl rfl
  | some key =>
      by_cases same : key = name
      · exact .inr ⟨value, by rw [same]⟩
      · have broken : value.whole ≠ true := fun whole => stop ⟨⟨key, rfl, same⟩, whole⟩
        have fault : readPart name draft key value = .error .notJson := by
          rw [readPart, if_neg same, Tree.skip, if_neg broken]
          rfl
        exact .inl (by rw [Tree.readMembers, fault]; rfl)

theorem readString_cases (tree : Tree) :
    (∃ text, tree = .string (some text)) ∨
      NoString tree ∧ (Tree.readString tree : Json.Reading Empty String) = .error .wrongShape ∨
      (Tree.readString tree : Json.Reading Empty String) = .error .notJson := by
  cases tree with
  | string value => cases value with
    | some text => exact .inl ⟨text, rfl⟩
    | none => exact .inr (.inr rfl)
  | number value => cases value with
    | some value => exact .inr (.inl ⟨.number value, rfl⟩)
    | none => exact .inr (.inr rfl)
  | null => exact .inr (.inl ⟨.null, rfl⟩)
  | bool value => exact .inr (.inl ⟨.bool value, rfl⟩)
  | array items closed => exact .inr (.inl ⟨.array items closed, rfl⟩)
  | object members closed => exact .inr (.inl ⟨.object members closed, rfl⟩)
  | broken => exact .inr (.inr rfl)

theorem NoString.readString {tree : Tree} (other : NoString tree) :
    (Tree.readString tree : Json.Reading Empty String) = .error .wrongShape := by
  cases other <;> rfl

theorem readMembers_name (text : String) (rest : List (Option String × Tree)) :
    Tree.readMembers (readPart name) none ((some name, .string (some text)) :: rest) =
      Tree.readMembers (readPart name) (some text) rest := by
  have read : readPart name none name (.string (some text)) = .ok (some text) := by
    rw [readPart, if_pos rfl]
    rfl
  rw [Tree.readMembers, read]
  rfl

theorem readMembers_again (text : String) (again : Tree) (rest : List (Option String × Tree)) :
    Tree.readMembers (readPart name) (some text) ((some name, again) :: rest) = .error .wrongShape := by
  have fault : readPart name (some text) name again = .error .wrongShape := by
    rw [readPart, if_pos rfl]
    rfl
  rw [Tree.readMembers, fault]
  rfl

theorem readMembers_of_error {value : Tree} {fault : Json.ReadError Empty}
    (misfit : Tree.readString value = .error fault) (rest : List (Option String × Tree)) :
    Tree.readMembers (readPart name) none ((some name, value) :: rest) = .error fault := by
  have fault : readPart name none name value = .error fault := by
    rw [readPart, if_pos rfl, Tree.readOnce, misfit]
    rfl
  rw [Tree.readMembers, fault]
  rfl

end Members

/-! ## Values -/

section Values

variable {name : String}

theorem memberOfTree_object_of_error {members : List (Option String × Tree)} {fault : Json.ReadError Empty}
    (read : Tree.readMembers (readPart name) none members = .error fault) (closed : Bool) :
    memberOfTree name (.object members closed) = .error fault := by
  rw [memberOfTree, Tree.readObject, read]
  rfl

theorem memberOfTree_object_of_ok {members : List (Option String × Tree)} {draft : Option String}
    (read : Tree.readMembers (readPart name) none members = .ok draft) (closed : Bool) :
    memberOfTree name (.object members closed) = if closed then Json.required draft else .error .notJson := by
  rw [memberOfTree, Tree.readObject, read]
  cases closed <;> rfl

theorem Gives.memberOfTree_eq {text : String} {tree : Tree} (gives : Gives name text tree) :
    memberOfTree name tree = .ok text := by
  cases gives with
  | array => rfl
  | object before after =>
      refine @memberOfTree_object_of_ok name _ (some text) ?_ true
      rw [readMembers_append_of_beside before, readMembers_name]
      exact readMembers_of_beside after _

theorem Misshapen.memberOfTree_eq {tree : Tree} (misshapen : Misshapen name tree) :
    memberOfTree name tree = .error .wrongShape := by
  cases misshapen with
  | null | bool | number | string | empty => rfl
  | item items closed other =>
      rw [memberOfTree, Tree.readItem, Tree.readItem?, other.readString]
      rfl
  | missing beside => exact memberOfTree_object_of_ok (readMembers_of_beside beside none) true
  | member after closed before other =>
      refine memberOfTree_object_of_error ?_ closed
      rw [readMembers_append_of_beside before, readMembers_of_error other.readString]
  | repeated text again after closed before between =>
      refine memberOfTree_object_of_error ?_ closed
      rw [readMembers_append_of_beside before, readMembers_name, readMembers_append_of_beside between,
        readMembers_again]

/-- Behind the member of the name every member is read over, or there is a fault. -/
theorem readMembers_some_cases (name text : String) (members : List (Option String × Tree)) :
    (∀ member ∈ members, IsBeside name member) ∨
    (∃ between again after, members = between ++ (some name, again) :: after ∧
      ∀ member ∈ between, IsBeside name member) ∨
    Tree.readMembers (readPart name) (some text) members = .error .notJson := by
  obtain ⟨between, rest, rfl, beside, stop⟩ := exists_beside_append name members
  cases rest with
  | nil => exact .inl (by rwa [List.append_nil])
  | cons member after =>
      rcases readMembers_cons_cases (stop member rfl) (some text) after with broken | ⟨again, rfl⟩
      · exact .inr (.inr (by rw [readMembers_append_of_beside beside, broken]))
      · exact .inr (.inl ⟨between, again, after, rfl, beside⟩)

theorem memberOfTree_object_cases (name : String) (members : List (Option String × Tree)) (closed : Bool) :
    (∃ text, Gives name text (.object members closed)) ∨ Misshapen name (.object members closed) ∨
      memberOfTree name (.object members closed) = .error .notJson := by
  obtain ⟨before, rest, rfl, beside, stop⟩ := exists_beside_append name members
  cases rest with
  | nil =>
      rw [List.append_nil]
      cases closed with
      | true => exact .inr (.inl (.missing beside))
      | false => exact .inr (.inr (memberOfTree_object_of_ok (readMembers_of_beside beside none) false))
  | cons member after =>
      rcases readMembers_cons_cases (stop member rfl) none after with broken | ⟨value, rfl⟩
      · refine .inr (.inr (memberOfTree_object_of_error ?_ closed))
        rw [readMembers_append_of_beside beside, broken]
      rcases readString_cases value with ⟨text, rfl⟩ | ⟨other, -⟩ | broken
      · rcases readMembers_some_cases name text after with all | ⟨between, again, after, rfl, all⟩ | broken
        · cases closed with
          | true => exact .inl ⟨text, .object beside all⟩
          | false =>
              refine .inr (.inr (@memberOfTree_object_of_ok name _ (some text) ?_ false))
              rw [readMembers_append_of_beside beside, readMembers_name]
              exact readMembers_of_beside all _
        · exact .inr (.inl (.repeated text again after closed beside all))
        · refine .inr (.inr (memberOfTree_object_of_error ?_ closed))
          rw [readMembers_append_of_beside beside, readMembers_name, broken]
      · exact .inr (.inl (.member after closed beside other))
      · refine .inr (.inr (memberOfTree_object_of_error ?_ closed))
        rw [readMembers_append_of_beside beside, readMembers_of_error broken]

/-- Every value gives a text, is of another shape, or breaks the grammar where it is read. -/
theorem memberOfTree_cases (name : String) (tree : Tree) :
    (∃ text, Gives name text tree) ∨ Misshapen name tree ∨ memberOfTree name tree = .error .notJson := by
  cases tree with
  | null => exact .inr (.inl .null)
  | bool value => exact .inr (.inl (.bool value))
  | number value => cases value with
    | some value => exact .inr (.inl (.number value))
    | none => exact .inr (.inr rfl)
  | string value => cases value with
    | some value => exact .inr (.inl (.string value))
    | none => exact .inr (.inr rfl)
  | broken => exact .inr (.inr rfl)
  | object members closed => exact memberOfTree_object_cases name members closed
  | array items closed => cases items with
    | nil => cases closed with
      | true => exact .inr (.inl .empty)
      | false => exact .inr (.inr rfl)
    | cons item items =>
        rcases readString_cases item with ⟨text, rfl⟩ | ⟨other, -⟩ | broken
        · cases items with
          | cons second items => exact .inr (.inr rfl)
          | nil => cases closed with
            | true => exact .inl ⟨text, .array⟩
            | false => exact .inr (.inr rfl)
        · exact .inr (.inl (.item items closed other))
        · right; right
          rw [memberOfTree, Tree.readItem, Tree.readItem?, broken]
          rfl

theorem memberOfTree_eq_ok_iff {tree : Tree} {text : String} :
    memberOfTree name tree = .ok text ↔ Gives name text tree := by
  refine ⟨fun read => ?_, Gives.memberOfTree_eq⟩
  rcases memberOfTree_cases name tree with ⟨other, gives⟩ | misshapen | broken
  · have same := read.symm.trans gives.memberOfTree_eq
    rwa [Except.ok.inj same]
  · cases read.symm.trans misshapen.memberOfTree_eq
  · cases read.symm.trans broken

theorem memberOfTree_eq_wrongShape_iff {tree : Tree} :
    memberOfTree name tree = .error .wrongShape ↔ Misshapen name tree := by
  refine ⟨fun read => ?_, Misshapen.memberOfTree_eq⟩
  rcases memberOfTree_cases name tree with ⟨text, gives⟩ | misshapen | broken
  · cases read.symm.trans gives.memberOfTree_eq
  · exact misshapen
  · cases read.symm.trans broken

theorem wholeMembers_append_of_beside {before : List (Option String × Tree)}
    (beside : ∀ member ∈ before, IsBeside name member) (rest : List (Option String × Tree)) :
    Tree.wholeMembers (before ++ rest) = Tree.wholeMembers rest := by
  induction before with
  | nil => rfl
  | cons member before ih =>
      obtain ⟨here, later⟩ := List.forall_mem_cons.mp beside
      rw [List.cons_append, Tree.wholeMembers, here.whole, ih later]
      rfl

theorem Gives.whole {text : String} {tree : Tree} (gives : Gives name text tree) : tree.whole = true := by
  cases gives with
  | array => rfl
  | @object before after beside beside' =>
      have last := wholeMembers_append_of_beside beside' []
      rw [List.append_nil] at last
      rw [Tree.whole, wholeMembers_append_of_beside beside, Tree.wholeMembers, last]
      rfl

theorem Gives.delimited {text : String} {tree : Tree} (gives : Gives name text tree) :
    Json.Delimited tree.toTokens := by
  have noNumber : ∀ value, tree ≠ .number value := by
    rintro value rfl
    cases gives
  have delimited := @Tree.delimited_toTokens tree [] gives.whole (fun value same => absurd same (noNumber value))
    trivial
  rwa [List.append_nil] at delimited

end Values

/-! ## Bodies -/

section Bodies

variable {name : String} {contentType : Option String} {body : Body}

/-- A body gives a text if it starts with the tokens of a value that does. -/
theorem memberOfTree_ofBytes_eq_ok_iff {text : String} :
    memberOfTree name (Tree.ofBytes body.bytes) = .ok text ↔ ∃ tree, Gives name text tree ∧
      StartsWith tree.toTokens (body.bytes.data.toList.map Char.ofUInt8) := by
  rw [memberOfTree_eq_ok_iff]
  constructor
  · intro gives
    have taken := (Tree.readOn_eq_iff gives.whole).mp (@rfl _ (Tree.ofTokens (tokensOfBytes body.bytes)))
    exact ⟨_, gives, (Json.startsWith_iff gives.delimited).mpr ⟨_, taken⟩⟩
  · rintro ⟨tree, gives, starts⟩
    obtain ⟨rest, taken⟩ := (Json.startsWith_iff gives.delimited).mp starts
    have read := (Tree.readOn_eq_iff gives.whole).mpr taken
    rw [Tree.ofBytes, Tree.ofTokens, read]
    exact gives

theorem bodyMember_of_not_saysJson (other : ¬ SaysJson contentType) :
    bodyMember name contentType body = .error .notJsonType := by
  have accepted : Service.saysJson contentType ≠ true := fun accepted => other (saysJson_iff.mp accepted)
  simp [bodyMember, accepted]

theorem bodyMember_of_too_large (json : SaysJson contentType) (large : maxBodySize < body.bytes.size) :
    bodyMember name contentType body = .error .tooLarge := by
  simp [bodyMember, saysJson_iff.mpr json, large]

theorem bodyMember_of_fits (json : SaysJson contentType) (fits : body.bytes.size ≤ maxBodySize) :
    bodyMember name contentType body = match memberOfTree name (Tree.ofBytes body.bytes) with
      | .ok text => .ok text
      | .error .notJson => .error .notJson
      | .error .wrongShape => .error .wrongShape := by
  simp only [bodyMember, saysJson_iff.mpr json, if_neg (Nat.not_lt.mpr fits)]
  rfl

/-- A body is accepted with a text exactly if it carries the text. -/
theorem bodyMember_eq_ok_iff {text : String} :
    bodyMember name contentType body = .ok text ↔ Carries name contentType body text := by
  by_cases other : ¬ SaysJson contentType
  · rw [bodyMember_of_not_saysJson other]
    exact iff_of_false (by simp) fun carries => other carries.json
  have json := Classical.not_not.mp other
  by_cases large : maxBodySize < body.bytes.size
  · rw [bodyMember_of_too_large json large]
    exact iff_of_false (by simp) fun carries => Nat.not_lt.mpr carries.fits large
  have fits := Nat.not_lt.mp large
  have given : bodyMember name contentType body = .ok text ↔
      memberOfTree name (Tree.ofBytes body.bytes) = .ok text := by
    rw [bodyMember_of_fits json fits]
    split
    · rename_i read
      rw [read, Except.ok.injEq, Except.ok.injEq]
    · rename_i read
      simp [read]
    · rename_i read
      simp [read]
  rw [given, memberOfTree_ofBytes_eq_ok_iff]
  exact ⟨fun starts => ⟨json, fits, starts⟩, fun carries => carries.starts⟩

theorem Refuses.bodyMember_eq {status : Nat} {cause : Rejection}
    (refuses : Refuses name contentType body status cause) :
    bodyMember name contentType body = .error cause := by
  cases refuses with
  | notJsonType other => exact bodyMember_of_not_saysJson other
  | tooLarge json large => exact bodyMember_of_too_large json large
  | wrongShape json fits misshapen => rw [bodyMember_of_fits json fits, misshapen.memberOfTree_eq]
  | notJson json fits shaped noText =>
      rcases memberOfTree_cases name (Tree.ofBytes body.bytes) with ⟨text, gives⟩ | misshapen | broken
      · have starts := memberOfTree_ofBytes_eq_ok_iff.mp gives.memberOfTree_eq
        exact absurd ⟨json, fits, starts⟩ (noText text)
      · exact absurd misshapen shaped
      · rw [bodyMember_of_fits json fits, broken]

/-- Otherwise it is turned away for the first thing that is wrong. -/
theorem bodyMember_eq_error_iff {cause : Rejection} :
    bodyMember name contentType body = .error cause ↔ Refuses name contentType body cause.status cause := by
  refine ⟨fun refused => ?_, Refuses.bodyMember_eq⟩
  by_cases other : ¬ SaysJson contentType
  · rw [bodyMember_of_not_saysJson other] at refused
    cases refused
    exact .notJsonType other
  have json := Classical.not_not.mp other
  by_cases large : maxBodySize < body.bytes.size
  · rw [bodyMember_of_too_large json large] at refused
    cases refused
    exact .tooLarge json large
  have fits := Nat.not_lt.mp large
  rw [bodyMember_of_fits json fits] at refused
  split at refused
  · cases refused
  · rename_i broken
    cases refused
    refine .notJson json fits (fun misshapen => ?_) fun text carries => ?_
    · cases broken.symm.trans misshapen.memberOfTree_eq
    · cases broken.symm.trans (memberOfTree_ofBytes_eq_ok_iff.mpr carries.starts)
  · rename_i misfit
    cases refused
    exact .wrongShape json fits (memberOfTree_eq_wrongShape_iff.mp misfit)

/-- A body that is given as a text is read as the text. -/
theorem bodyMember_of_ok {body text : String} (json : saysJson contentType = true)
    (fits : body.utf8ByteSize ≤ maxBodySize) (read : memberOfTree name (Tree.ofText body) = .ok text) :
    bodyMember name contentType body = .ok text := by
  have size : ¬ maxBodySize < body.toUTF8.size := Nat.not_lt.mpr fits
  rw [← Json.Tree.ofBytes_toUTF8] at read
  simp only [bodyMember, json, if_neg size, read]
  rfl

theorem saysJson_applicationJson : SaysJson (some "application/json") := saysJson_iff.mp (by decide +kernel)

/-- Every text can be sent as the only member of an object. -/
theorem carries_memberBody {text : String} (json : SaysJson contentType)
    (fits : (memberBody name text).utf8ByteSize ≤ 2097152) :
    Carries name contentType (memberBody name text) text := by
  have writable : (Json.object [(name, .string text)]).Writable Json.maxDepth := ⟨by decide, trivial, trivial⟩
  have gives : Gives name text (Json.object [(name, .string text)]).toTree :=
    @Gives.object name text [] [] (by simp) (by simp)
  have read := (Json.tokensOfBytes_toUTF8 _).trans (Json.spells_render writable).tokens
  rw [← List.append_nil (Tree.toTokens _)] at read
  exact ⟨json, fits, _, gives, (Json.startsWith_iff gives.delimited).mpr ⟨[], read⟩⟩

end Bodies

end Paycard.Service
