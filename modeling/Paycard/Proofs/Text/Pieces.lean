/-! # Cutting a text into pieces

Splitting at a separator gives the only non-empty list of separator-free pieces that join to the text,
and joining the pieces with another separator exchanges the two. A longest run of characters of one
kind ends where a character of another kind follows. A text can also be cut at a byte offset, which
fails inside a character or past the end; the offset of the first character of some kind never does.
-/

namespace Paycard.Text

theorem not_mem_of_mem_splitOn {a : Char} {cs piece : List Char} (h : piece ∈ cs.splitOn a) :
    a ∉ piece := by
  induction cs generalizing piece with
  | nil =>
      obtain rfl : piece = [] := by simpa using h
      exact List.not_mem_nil
  | cons c cs ih =>
      rw [List.splitOn_cons_eq_if_modifyHead] at h
      cases split : cs.splitOn a with
      | nil => exact absurd split (List.splitOn_ne_nil a cs)
      | cons first rest =>
          rw [split] at h ih
          by_cases same : c = a
          · subst same
            rw [if_pos (beq_self_eq_true c), List.mem_cons] at h
            cases h with
            | inl empty => exact empty ▸ List.not_mem_nil
            | inr later => exact ih later
          · rw [if_neg (by simpa using same), List.modifyHead_cons, List.mem_cons] at h
            cases h with
            | inl extended =>
                rw [extended, List.mem_cons]
                exact not_or.mpr ⟨fun eq => same eq.symm, ih List.mem_cons_self⟩
            | inr later => exact ih (List.mem_cons_of_mem first later)

theorem splitOn_eq_iff {a : Char} {cs : List Char} {pieces : List (List Char)} :
    cs.splitOn a = pieces ↔
      pieces ≠ [] ∧ (∀ piece ∈ pieces, a ∉ piece) ∧ [a].intercalate pieces = cs := by
  constructor
  · intro split
    subst split
    exact ⟨List.splitOn_ne_nil a cs, fun _ member => not_mem_of_mem_splitOn member,
      List.intercalate_splitOn a⟩
  · intro ⟨nonempty, free, join⟩
    rw [← join]
    exact List.splitOn_intercalate a free nonempty

theorem length_splitOn (a : Char) (cs : List Char) : (cs.splitOn a).length = cs.count a + 1 := by
  induction cs with
  | nil => rfl
  | cons c cs ih =>
      rw [List.splitOn_cons_eq_if_modifyHead, List.count_cons]
      split <;> simp [ih]

theorem intercalate_splitOn_eq_map (a b : Char) (cs : List Char) :
    [b].intercalate (cs.splitOn a) = cs.map fun c => if c = a then b else c := by
  induction cs with
  | nil => simp
  | cons c cs ih =>
      rw [List.splitOn_cons_eq_if_modifyHead, List.map_cons, ← ih]
      by_cases same : c = a
      · rw [if_pos (by simpa using same), if_pos same,
          List.intercalate_cons_of_ne_nil (List.splitOn_ne_nil a cs)]
        rfl
      · rw [if_neg (by simpa using same), if_neg same]
        cases split : cs.splitOn a with
        | nil => exact absurd split (List.splitOn_ne_nil a cs)
        | cons first rest => simp

/-! ## Longest runs -/

theorem of_mem_takeWhile {f : Char → Bool} {cs : List Char} : ∀ c ∈ cs.takeWhile f, f c = true :=
  List.all_eq_true.mp List.all_takeWhile

theorem prefix_takeWhile_iff {p cs : List Char} {f : Char → Bool} :
    p <+: cs.takeWhile f ↔ p <+: cs ∧ ∀ c ∈ p, f c = true := by
  constructor
  · intro pre
    exact ⟨pre.trans (List.takeWhile_prefix f), fun c member => of_mem_takeWhile c (pre.subset member)⟩
  · intro ⟨⟨rest, whole⟩, all⟩
    rw [← whole, List.takeWhile_append_of_pos all]
    exact List.prefix_append p _

theorem takeWhile_append_of_head {f : Char → Bool} {run rest : List Char}
    (all : ∀ c ∈ run, f c = true) (stop : ∀ c ∈ rest.head?, f c = false) :
    (run ++ rest).takeWhile f = run := by
  rw [List.takeWhile_append_of_pos all]
  cases rest with
  | nil => simp
  | cons c rest => simp [stop c rfl]

theorem head?_dropWhile_eq_false {f : Char → Bool} {cs : List Char} :
    ∀ c ∈ (cs.dropWhile f).head?, f c = false := by
  intro c member
  have stop := List.head?_dropWhile_not f cs
  rw [Option.mem_def.mp member] at stop
  simpa using stop

/-! ## Byte offsets -/

/-- The byte offset of the first character of a kind, or the size of a text that has none. -/
def offsetOf (kind : Char → Bool) : List Char → Nat
  | [] => 0
  | c :: cs => if kind c then 0 else c.utf8Size + offsetOf kind cs

/-- The characters before a byte offset. There are none to give when the offset lies inside a
    character or past the end. -/
def cutAt? : Nat → List Char → Option (List Char)
  | 0, _ => some []
  | _ + 1, [] => none
  | n + 1, c :: cs =>
      if c.utf8Size ≤ n + 1 then (c :: ·) <$> cutAt? (n + 1 - c.utf8Size) cs else none

theorem cutAt?_size_add (c : Char) (cs : List Char) (n : Nat) :
    cutAt? (c.utf8Size + n) (c :: cs) = (c :: ·) <$> cutAt? n cs := by
  have pos := c.utf8Size_pos
  cases size : c.utf8Size + n with
  | zero => omega
  | succ m =>
      rw [cutAt?, if_pos (by omega)]
      congr 2
      omega

theorem cutAt?_offsetOf (kind : Char → Bool) (cs : List Char) :
    cutAt? (offsetOf kind cs) cs = some (cs.takeWhile (!kind ·)) := by
  induction cs with
  | nil => rfl
  | cons c cs ih =>
      cases here : kind c with
      | true => simp [offsetOf, cutAt?, here]
      | false => simp [offsetOf, cutAt?_size_add, here, ih]

theorem offsetOf_eq_zero_iff {kind : Char → Bool} {cs : List Char} :
    offsetOf kind cs = 0 ↔ cs.takeWhile (!kind ·) = [] := by
  cases cs with
  | nil => simp [offsetOf]
  | cons c cs =>
      have pos := c.utf8Size_pos
      cases here : kind c with
      | true => simp [offsetOf, here]
      | false =>
          simp [offsetOf, here]
          omega

end Paycard.Text
