import Paycard.Json.Bytes
import Paycard.Proofs.Json.Tokens

/-! # A text and its bytes

A text has the same tokens in characters and in bytes. An ASCII character is its own byte, and no byte of
another character is ASCII, so a reader that looks for ASCII characters finds them at the same places in
both (`Bytewise`). The bytes of a string literal then spell what its characters spell.
-/

namespace Paycard.Json

/-- The bytes of a text, each as a character of its own. -/
def bytesOf (cs : List Char) : List Char := (cs.flatMap String.utf8EncodeChar).map Char.ofUInt8

theorem bytesOf_append (cs ds : List Char) : bytesOf (cs ++ ds) = bytesOf cs ++ bytesOf ds := by
  rw [bytesOf, List.flatMap_append, List.map_append]
  rfl

theorem bytesOf_cons (c : Char) (cs : List Char) : bytesOf (c :: cs) = bytesOf [c] ++ bytesOf cs :=
  bytesOf_append [c] cs

theorem utf8Size_eq_one_iff {c : Char} : c.utf8Size = 1 ↔ c.toNat < 128 := by
  have value : c.val.toNat = c.toNat := rfl
  have last : (127 : UInt32).toNat = 127 := rfl
  rw [Char.utf8Size_eq_one_iff, UInt32.le_iff_toNat_le, value, last]
  omega

theorem bytesOf_ascii {c : Char} (ascii : c.toNat < 128) (cs : List Char) :
    bytesOf (c :: cs) = c :: bytesOf cs := by
  have value : c.val.toNat = c.toNat := rfl
  have byte : Char.ofUInt8 c.val.toUInt8 = c := by
    apply Char.ext
    apply UInt32.toNat_inj.mp
    show c.val.toUInt8.toUInt32.toNat = c.val.toNat
    rw [UInt8.toNat_toUInt32, UInt32.toNat_toUInt8, value]
    omega
  rw [bytesOf, List.flatMap_cons, String.utf8EncodeChar_eq_singleton (utf8Size_eq_one_iff.mpr ascii),
    List.map_append, List.map_singleton, byte]
  rfl

/-- A byte with its highest bit set is no ASCII character. -/
theorem le_toNat_ofUInt8_or {mark : UInt8} (high : 128 ≤ mark.toNat) (byte : UInt8) :
    128 ≤ (Char.ofUInt8 (byte ||| mark)).toNat := by
  have grown : mark.toNat ≤ byte.toNat ||| mark.toNat := Nat.right_le_or
  rw [← UInt8.toNat_or] at grown
  exact Nat.le_trans high grown

theorem le_toNat_of_mem_bytesOf {c : Char} (wide : 128 ≤ c.toNat) : ∀ b ∈ bytesOf [c], 128 ≤ b.toNat := by
  have several : c.utf8Size ≠ 1 := fun one => by
    have ascii := utf8Size_eq_one_iff.mp one
    omega
  rw [bytesOf, List.flatMap_singleton]
  rcases Char.utf8Size_eq c with one | two | three | four
  · exact absurd one several
  · rw [String.utf8EncodeChar_eq_cons_cons two]
    simp [le_toNat_ofUInt8_or]
  · rw [String.utf8EncodeChar_eq_cons_cons_cons three]
    simp [le_toNat_ofUInt8_or]
  · rw [String.utf8EncodeChar_eq_cons_cons_cons_cons four]
    simp [le_toNat_ofUInt8_or]

theorem bytesOf_singleton_ne_nil (c : Char) : bytesOf [c] ≠ [] := by
  have length : (bytesOf [c]).length = c.utf8Size := by
    rw [bytesOf, List.flatMap_singleton, List.length_map, String.length_utf8EncodeChar]
  intro empty
  rw [empty, List.length_nil] at length
  exact absurd length.symm (Nat.ne_of_gt c.utf8Size_pos)

/-- How a text and its bytes start: both with the same ASCII character, or both with none. -/
inductive StartAlike : List Char → List Char → Prop where
  | empty : StartAlike [] []
  | ascii {c : Char} (cs : List Char) : c.toNat < 128 → StartAlike (c :: cs) (c :: bytesOf cs)
  | wide {c b : Char} (cs bs : List Char) : 128 ≤ c.toNat → 128 ≤ b.toNat → StartAlike (c :: cs) (b :: bs)

theorem startAlike (cs : List Char) : StartAlike cs (bytesOf cs) := by
  cases cs with
  | nil => exact .empty
  | cons c cs =>
      rcases Nat.lt_or_ge c.toNat 128 with ascii | wide
      · rw [bytesOf_ascii ascii]
        exact .ascii cs ascii
      · obtain ⟨b, bs, spelled⟩ := List.exists_cons_of_ne_nil (bytesOf_singleton_ne_nil c)
        have high := le_toNat_of_mem_bytesOf wide b (by rw [spelled]; exact List.mem_cons_self)
        rw [bytesOf_cons, spelled]
        exact .wide cs _ wide high

theorem ne_of_wide {c : Char} (wide : 128 ≤ c.toNat) (d : Char) (ascii : d.toNat < 128) : c ≠ d := by
  rintro rfl
  omega

theorem isDigit_of_wide {c : Char} (wide : 128 ≤ c.toNat) : c.isDigit = false := by
  have value : c.val.toNat = c.toNat := rfl
  have above : ¬ c.val ≤ 57 := fun below => by
    rw [UInt32.le_iff_toNat_le, value] at below
    exact absurd (Nat.le_trans wide below) (by decide)
  rw [Char.isDigit, Bool.and_eq_false_iff]
  exact .inr (decide_eq_false above)

/-! ## Readers of ASCII characters -/

section Bytewise

variable {α β : Type}

/-- What a reader has found, with what it leaves in bytes. -/
def restInBytes (found : α × List Char) : α × List Char := (found.1, bytesOf found.2)

/-- A reader finds the same in the bytes of a text as in the text, and leaves the bytes of what it leaves
    there. -/
def Bytewise (read : List Char → Option (α × List Char)) : Prop :=
  ∀ cs, read (bytesOf cs) = (read cs).map restInBytes

theorem Bytewise.bind {read : List Char → Option (α × List Char)} (first : Bytewise read)
    {next : α → List Char → Option (β × List Char)} (later : ∀ a, Bytewise (next a)) :
    Bytewise fun cs => (read cs).bind fun found => next found.1 found.2 := by
  intro cs
  show (read (bytesOf cs)).bind _ = Option.map restInBytes ((read cs).bind _)
  rw [first cs]
  cases read cs with
  | none => rfl
  | some found => exact later found.1 found.2

theorem Bytewise.map {read : List Char → Option (α × List Char)} (bytewise : Bytewise read) (f : α → β) :
    Bytewise fun cs => (fun found => (f found.1, found.2)) <$> read cs := by
  intro cs
  show (read (bytesOf cs)).map _ = Option.map restInBytes ((read cs).map _)
  rw [bytewise cs]
  cases read cs with
  | none => rfl
  | some found => rfl

theorem bytewise_pure (a : α) : Bytewise fun cs => some (a, cs) := fun _ => rfl

end Bytewise

theorem afterWord?_bytesOf {word : List Char} (ascii : ∀ w ∈ word, w.toNat < 128) (cs : List Char) :
    Token.afterWord? word (bytesOf cs) = (Token.afterWord? word cs).map bytesOf := by
  induction word generalizing cs with
  | nil => rfl
  | cons w word ih =>
      obtain ⟨here, later⟩ := List.forall_mem_cons.mp ascii
      have start := startAlike cs
      generalize bytesOf cs = bytes at start
      cases start with
      | empty => rfl
      | @ascii c cs low =>
          simp only [Token.afterWord?]
          split
          · exact ih later cs
          · rfl
      | wide cs bs wide high =>
          simp [Token.afterWord?, ne_of_wide wide w here, ne_of_wide high w here]

theorem takeWhile_bytesOf (cs : List Char) :
    (bytesOf cs).takeWhile Char.isDigit = cs.takeWhile Char.isDigit := by
  induction cs with
  | nil => rfl
  | cons c cs ih =>
      have start := startAlike (c :: cs)
      generalize spelled : bytesOf (c :: cs) = bytes at start
      cases start with
      | ascii _ low => rw [List.takeWhile_cons, List.takeWhile_cons, ih]
      | wide _ _ wide high =>
          simp [isDigit_of_wide wide, isDigit_of_wide high]

theorem dropWhile_bytesOf (cs : List Char) :
    (bytesOf cs).dropWhile Char.isDigit = bytesOf (cs.dropWhile Char.isDigit) := by
  induction cs with
  | nil => rfl
  | cons c cs ih =>
      have start := startAlike (c :: cs)
      generalize spelled : bytesOf (c :: cs) = bytes at start
      cases start with
      | ascii _ low =>
          rw [List.dropWhile_cons, List.dropWhile_cons, ih, ← spelled]
          split <;> rfl
      | wide _ _ wide high =>
          simp [isDigit_of_wide wide, isDigit_of_wide high, spelled]

theorem bytewise_digits? : Bytewise digits? := by
  intro cs
  rw [digits?, digits?, takeWhile_bytesOf, dropWhile_bytesOf]
  split <;> rfl

namespace Numeral

theorem bytewise_whole? : Bytewise whole? := by
  intro cs
  rw [whole?, whole?, bytewise_digits? cs]
  cases digits? cs with
  | none => rfl
  | some found =>
      obtain ⟨ds, rest⟩ := found
      simp only [Option.map_some, restInBytes]
      split <;> simp_all [restInBytes]

theorem bytewise_fraction? : Bytewise fraction? := by
  intro cs
  have start := startAlike cs
  generalize spelled : bytesOf cs = bytes at start
  cases start with
  | empty => rfl
  | @ascii c cs low =>
      by_cases point : c = '.'
      · subst point
        exact bytewise_digits?.map some cs
      · simp [fraction?, point, restInBytes, bytesOf_ascii low]
  | wide cs bs wide high =>
      simp [fraction?, ne_of_wide wide '.' (by decide),
        ne_of_wide high '.' (by decide), restInBytes, spelled]

theorem bytewise_sign : Bytewise fun cs => some (sign cs) := by
  intro cs
  have start := startAlike cs
  generalize spelled : bytesOf cs = bytes at start
  cases start with
  | empty => rfl
  | @ascii c cs low =>
      by_cases minus : c = '-'
      · subst minus
        rfl
      · simp [sign, minus, restInBytes, spelled]
  | wide cs bs wide high =>
      simp [sign, ne_of_wide wide '-' (by decide),
        ne_of_wide high '-' (by decide), restInBytes, spelled]

theorem bytewise_exponentSign : Bytewise fun cs => some (exponentSign cs) := by
  intro cs
  have start := startAlike cs
  generalize spelled : bytesOf cs = bytes at start
  cases start with
  | empty => rfl
  | @ascii c cs low =>
      by_cases minus : c = '-'
      · subst minus
        rfl
      · by_cases plus : c = '+'
        · subst plus
          rfl
        · simp [exponentSign, minus, plus, restInBytes, spelled]
  | wide cs bs wide high =>
      simp [exponentSign, ne_of_wide wide '-' (by decide),
        ne_of_wide high '-' (by decide), ne_of_wide wide '+' (by decide),
        ne_of_wide high '+' (by decide), restInBytes, spelled]

theorem bytewise_exponent? : Bytewise exponent? := by
  have digits : Bytewise fun cs => (some (exponentSign cs)).bind fun found =>
      (fun read => (some (found.1, read.1), read.2)) <$> digits? found.2 :=
    bytewise_exponentSign.bind fun negative => bytewise_digits?.map fun ds => some (negative, ds)
  intro cs
  have start := startAlike cs
  generalize spelled : bytesOf cs = bytes at start
  cases start with
  | empty => rfl
  | @ascii c cs low =>
      simp only [exponent?]
      split
      · exact digits cs
      · simp [restInBytes, spelled]
  | wide cs bs wide high =>
      simp [exponent?, ne_of_wide wide 'e' (by decide),
        ne_of_wide high 'e' (by decide), ne_of_wide wide 'E' (by decide),
        ne_of_wide high 'E' (by decide), restInBytes, spelled]

theorem bytewise_scan? : Bytewise scan? := by
  have parts : Bytewise fun cs => (some (sign cs)).bind fun signed =>
      (whole? signed.2).bind fun whole => (fraction? whole.2).bind fun fraction =>
        (exponent? fraction.2).bind fun exponent =>
          some ((⟨signed.1, whole.1, fraction.1, exponent.1⟩ : Numeral), exponent.2) :=
    bytewise_sign.bind fun negative => bytewise_whole?.bind fun whole => bytewise_fraction?.bind fun fraction =>
      bytewise_exponent?.bind fun exponent => bytewise_pure _
  exact parts

end Numeral

/-! ## String literals -/

namespace Piece

/-- A piece of a string literal in bytes. Escapes look the same there. -/
def bytes : Piece → List Piece
  | .char c => (bytesOf [c]).map .char
  | .unit n => [.unit n]

/-- The hexadecimal digit that comes next. -/
def digitAhead? : List Char → Option (Nat × List Char)
  | [] => none
  | c :: cs => (·, cs) <$> hexDigit? c

/-- The unit that the next four characters write. -/
def unitAhead? (cs : List Char) : Option (Piece × List Char) :=
  (digitAhead? cs).bind fun w => (digitAhead? w.2).bind fun x => (digitAhead? x.2).bind fun y =>
    (digitAhead? y.2).bind fun z => some (.unit (((w.1 * 16 + x.1) * 16 + y.1) * 16 + z.1), z.2)

theorem hexDigit?_of_wide {c : Char} (wide : 128 ≤ c.toNat) : hexDigit? c = none := by
  have above (d : Char) (ascii : d.toNat < 128) : ¬ c ≤ d := fun below => by
    have order : c.toNat ≤ d.toNat := below
    omega
  simp [hexDigit?, isDigit_of_wide wide, above 'f' (by decide), above 'F' (by decide)]

theorem bytewise_digitAhead? : Bytewise digitAhead? := by
  intro cs
  have start := startAlike cs
  generalize bytesOf cs = bytes at start
  cases start with
  | empty => rfl
  | @ascii c cs low =>
      rw [digitAhead?, digitAhead?]
      cases hexDigit? c with
      | none => rfl
      | some digit => rfl
  | wide cs bs wide high =>
      rw [digitAhead?, digitAhead?, hexDigit?_of_wide wide, hexDigit?_of_wide high]
      rfl

theorem bytewise_unitAhead? : Bytewise unitAhead? :=
  bytewise_digitAhead?.bind fun w => bytewise_digitAhead?.bind fun x => bytewise_digitAhead?.bind fun y =>
    bytewise_digitAhead?.bind fun z => bytewise_pure (Piece.unit (((w * 16 + x) * 16 + y) * 16 + z))

/-- A unit takes characters from the text. -/
theorem of_unitAhead?_eq_some {cs : List Char} {found : Piece × List Char} (ahead : unitAhead? cs = some found) :
    (∃ n, found.1 = .unit n) ∧ found.2.length < cs.length := by
  have shorter {cs : List Char} {digit : Nat × List Char} (read : digitAhead? cs = some digit) :
      digit.2.length < cs.length := by
    cases cs with
    | nil => cases read
    | cons c cs =>
        obtain ⟨_, _, rfl⟩ := Option.map_eq_some_iff.mp read
        exact Nat.lt_succ_self _
  simp only [unitAhead?, Option.bind_eq_some_iff, Option.some.injEq] at ahead
  obtain ⟨w, first, x, second, y, third, z, fourth, rfl⟩ := ahead
  have := shorter first
  have := shorter second
  have := shorter third
  have := shorter fourth
  exact ⟨⟨_, rfl⟩, show z.2.length < cs.length by omega⟩

/-- Adds pieces in front of those that were read. -/
def after (pieces : List Piece) (found : List Piece × List Char) : List Piece × List Char :=
  (pieces ++ found.1, found.2)

theorem bind_after (piece : Piece) (found? : Option (List Piece × List Char)) :
    (found?.bind fun found => some (piece :: found.1, found.2)) = found?.map (after [piece]) := by
  cases found? with
  | none => rfl
  | some found => rfl

theorem scan?_backslash_u (cs : List Char) :
    scan? ('\\' :: 'u' :: cs) = (unitAhead? cs).bind fun found => (scan? found.2).map (after [found.1]) := by
  rw [scan?.eq_def]
  rcases cs with _ | ⟨h₁, _ | ⟨h₂, _ | ⟨h₃, _ | ⟨h₄, rest⟩⟩⟩⟩
  -- With fewer than four characters both sides fail, whatever the characters are.
  all_goals
    simp [unitAhead?, digitAhead?, unit?, short?, Option.bind_map, Function.comp_def, Option.bind_assoc,
      bind_after]

theorem scan?_backslash {letter : Char} (notUnit : letter ≠ 'u') (cs : List Char) :
    scan? ('\\' :: letter :: cs) = (short? letter).bind fun piece => (scan? cs).map (after [piece]) := by
  rw [scan?.eq_def]
  simp [notUnit, bind_after]

theorem scan?_plain_cons {c : Char} (notQuote : c ≠ '\"') (notSlash : c ≠ '\\') (printable : ¬ c < ' ')
    (cs : List Char) : scan? (c :: cs) = (scan? cs).map (after [.char c]) := by
  rw [scan?.eq_def]
  simp [notQuote, notSlash, printable, bind_after]

theorem short?_of_wide {c : Char} (wide : 128 ≤ c.toNat) : short? c = none := by
  simp [short?, ne_of_wide wide '\"' (by decide), ne_of_wide wide '\\' (by decide),
    ne_of_wide wide '/' (by decide), ne_of_wide wide 'b' (by decide), ne_of_wide wide 'f' (by decide),
    ne_of_wide wide 'n' (by decide), ne_of_wide wide 'r' (by decide), ne_of_wide wide 't' (by decide)]

theorem not_lt_space_of_wide {c : Char} (wide : 128 ≤ c.toNat) : ¬ c < ' ' := fun below => by
  have order : c.toNat < ' '.toNat := below
  have space : ' '.toNat = 32 := rfl
  omega

/-- The piece of an escape is ASCII. -/
theorem bytes_of_short? {letter : Char} {piece : Piece} (short : short? letter = some piece) :
    piece.bytes = [piece] := by
  have ascii : ∃ c : Char, c.toNat < 128 ∧ piece = .char c := by
    unfold short? at short
    repeat' split at short
    all_goals simp only [Option.some.injEq, reduceCtorEq] at short
    · rename_i bare
      refine ⟨letter, ?_, short.symm⟩
      rcases bare with rfl | rfl | rfl <;> decide
    all_goals exact ⟨_, by decide, short.symm⟩
  obtain ⟨c, low, rfl⟩ := ascii
  rw [bytes, bytesOf_ascii low]
  rfl

/-- The pieces of a string literal and the text behind it, in bytes. -/
def literalInBytes (found : List Piece × List Char) : List Piece × List Char :=
  (found.1.flatMap bytes, bytesOf found.2)

theorem map_after_bytes (piece : Piece) (found? : Option (List Piece × List Char)) :
    (found?.map literalInBytes).map (after piece.bytes) = (found?.map (after [piece])).map literalInBytes := by
  cases found? with
  | none => rfl
  | some found => simp [literalInBytes, after]

theorem scan?_append_of_wide {bs : List Char} (wide : ∀ b ∈ bs, 128 ≤ b.toNat) (cs : List Char) :
    scan? (bs ++ cs) = (scan? cs).map (after (bs.map .char)) := by
  induction bs with
  | nil => exact Option.map_id'.symm
  | cons b bs ih =>
      obtain ⟨here, later⟩ := List.forall_mem_cons.mp wide
      rw [List.cons_append, scan?_plain_cons (ne_of_wide here _ (by decide)) (ne_of_wide here _ (by decide))
        (not_lt_space_of_wide here), ih later, Option.map_map]
      rfl

/-- A character that stands for itself is read in bytes as its bytes. -/
theorem scan?_bytesOf_cons {c : Char} (notQuote : c ≠ '\"') (notSlash : c ≠ '\\') (printable : ¬ c < ' ')
    (cs : List Char) : scan? (bytesOf (c :: cs)) = (scan? (bytesOf cs)).map (after (bytes (.char c))) := by
  rcases Nat.lt_or_ge c.toNat 128 with ascii | wide
  · rw [bytesOf_ascii ascii, scan?_plain_cons notQuote notSlash printable, bytes, bytesOf_ascii ascii]
    rfl
  · rw [bytesOf_cons]
    exact scan?_append_of_wide (le_toNat_of_mem_bytesOf wide) _

/-- A string literal is read in bytes as in characters, piece by piece. -/
theorem scan?_bytesOf : ∀ cs : List Char, scan? (bytesOf cs) = (scan? cs).map literalInBytes
  | [] => rfl
  | c :: cs => by
      by_cases quote : c = '\"'
      · subst quote
        rw [bytesOf_ascii (by decide), scan?_end, scan?_end]
        rfl
      by_cases slash : c = '\\'
      · subst slash
        match cs with
        | [] => rfl
        | letter :: rest =>
            rw [bytesOf_ascii (by decide)]
            by_cases unit : letter = 'u'
            · subst unit
              rw [bytesOf_ascii (by decide), scan?_backslash_u, scan?_backslash_u, bytewise_unitAhead? rest]
              cases ahead : unitAhead? rest with
              | none => rfl
              | some found =>
                  obtain ⟨⟨n, unit⟩, shorter⟩ := of_unitAhead?_eq_some ahead
                  have escape : found.1.bytes = [found.1] := by rw [unit]; rfl
                  show (scan? (bytesOf found.2)).map (after [found.1]) = _
                  rw [scan?_bytesOf found.2, ← escape, map_after_bytes, Option.bind_some]
            · have start := startAlike (letter :: rest)
              generalize bytesOf (letter :: rest) = bytes at start
              cases start with
              | ascii _ low =>
                  rw [scan?_backslash unit, scan?_backslash unit, scan?_bytesOf rest]
                  cases short : short? letter with
                  | none => rfl
                  | some piece =>
                      rw [Option.bind_some, Option.bind_some, ← map_after_bytes, bytes_of_short? short]
              | wide _ _ wide high =>
                  rw [scan?_backslash unit, scan?_backslash (ne_of_wide high 'u' (by decide)),
                    short?_of_wide wide, short?_of_wide high]
                  rfl
      by_cases control : c < ' '
      · have ascii : c.toNat < 128 := Nat.lt_trans control (by decide)
        rw [bytesOf_ascii ascii, scan?.eq_def, scan?.eq_def (c :: cs)]
        simp [quote, slash, control]
      · rw [scan?_bytesOf_cons quote slash control, scan?_bytesOf cs, scan?_plain_cons quote slash control,
          map_after_bytes]
  termination_by cs => cs.length

section Join

variable (plain escaped : Char → List UInt8)

theorem joinWith?_append_chars (cs : List Char) (pieces : List Piece) :
    joinWith? plain escaped (cs.map .char ++ pieces) =
      (joinWith? plain escaped pieces).map (cs.flatMap plain ++ ·) := by
  induction cs with
  | nil => exact Option.map_id'.symm
  | cons c cs ih =>
      rw [List.map_cons, List.cons_append, joinWith?, ih, Option.map_eq_map, Option.map_map]
      simp [Function.comp_def]

/-- A unit without another behind it stands for itself. -/
theorem joinWith?_unit_alone (n : Nat) {pieces : List Piece} (alone : ∀ m rest, pieces ≠ .unit m :: rest) :
    joinWith? plain escaped (.unit n :: pieces) =
      if isHigh n || isLow n then none
      else (escaped (Char.ofNat n) ++ ·) <$> joinWith? plain escaped pieces := by
  match pieces with
  | [] => rfl
  | .char c :: rest => rfl
  | .unit m :: rest => exact absurd rfl (alone m rest)

end Join

theorem flatMap_bytes_ne_unit {pieces : List Piece} (alone : ∀ m rest, pieces ≠ .unit m :: rest) (m : Nat)
    (rest : List Piece) : pieces.flatMap bytes ≠ .unit m :: rest := by
  match pieces with
  | [] => simp
  | .char c :: _ =>
      obtain ⟨b, bs, spelled⟩ := List.exists_cons_of_ne_nil (bytesOf_singleton_ne_nil c)
      simp [bytes, spelled]
  | .unit n :: rest => exact absurd rfl (alone n rest)

theorem flatMap_toUInt8_bytesOf (c : Char) :
    ((bytesOf [c]).flatMap fun byte => [byte.toUInt8]) = String.utf8EncodeChar c := by
  have back (byte : UInt8) : (Char.ofUInt8 byte).toUInt8 = byte := UInt8.toUInt8_toUInt32 byte
  simp [bytesOf, List.flatMap_map, back]

theorem joinWith?_bytes (pieces : List Piece) :
    joinWith? (fun byte => [byte.toUInt8]) String.utf8EncodeChar (pieces.flatMap bytes) =
      (join? pieces).map fun cs => cs.flatMap String.utf8EncodeChar := by
  unfold join?
  fun_induction joinWith? (fun c => [c]) (fun c => [c]) pieces with
  | case1 => rfl
  | case2 c rest ih =>
      rw [List.flatMap_cons, bytes, joinWith?_append_chars, ih, flatMap_toUInt8_bytesOf]
      cases joinWith? (fun c => [c]) (fun c => [c]) rest <;> rfl
  | case3 n m rest high low ih =>
      show joinWith? _ _ (.unit n :: .unit m :: rest.flatMap bytes) = _
      rw [joinWith?, if_pos high, if_pos low, ih]
      cases joinWith? (fun c => [c]) (fun c => [c]) rest <;> rfl
  | case4 n m rest high low =>
      show joinWith? _ _ (.unit n :: .unit m :: rest.flatMap bytes) = _
      rw [joinWith?, if_pos high, if_neg low]
      rfl
  | case5 n m rest high low =>
      show joinWith? _ _ (.unit n :: .unit m :: rest.flatMap bytes) = _
      rw [joinWith?, if_neg high, if_pos low]
      rfl
  | case6 n m rest high low ih =>
      show joinWith? _ _ (.unit n :: .unit m :: rest.flatMap bytes) = _
      rw [joinWith?, if_neg high, if_neg low]
      show _ <$> joinWith? _ _ ((Piece.unit m :: rest).flatMap bytes) = _
      rw [ih]
      cases joinWith? (fun c => [c]) (fun c => [c]) (Piece.unit m :: rest) <;> rfl
  | case7 n rest alone half =>
      show joinWith? _ _ (.unit n :: rest.flatMap bytes) = _
      rw [joinWith?_unit_alone _ _ n (flatMap_bytes_ne_unit fun m rest same => alone m rest same), if_pos half]
      rfl
  | case8 n rest alone whole ih =>
      show joinWith? _ _ (.unit n :: rest.flatMap bytes) = _
      rw [joinWith?_unit_alone _ _ n (flatMap_bytes_ne_unit fun m rest same => alone m rest same),
        if_neg whole, ih]
      cases joinWith? (fun c => [c]) (fun c => [c]) rest <;> rfl

theorem fromUTF8?_toByteArray (cs : List Char) :
    String.fromUTF8? (cs.flatMap String.utf8EncodeChar).toByteArray = some (String.ofList cs) := by
  have valid := (String.ofList cs).isValidUTF8
  rw [String.toByteArray_ofList] at valid
  exact dif_pos valid

/-- The bytes of a string literal spell the text that its characters spell. -/
theorem utf8?_bytes (pieces : List Piece) : utf8? (pieces.flatMap bytes) = text? pieces := by
  rw [utf8?, joinWith?_bytes, text?]
  cases join? pieces with
  | none => rfl
  | some cs => exact fromUTF8?_toByteArray cs

end Piece

/-! ## Tokens -/

theorem Numeral.scan?_of_wide {c : Char} (wide : 128 ≤ c.toNat) (cs : List Char) : scan? (c :: cs) = none := by
  have unsigned : sign (c :: cs) = (false, c :: cs) := by
    simp [sign, ne_of_wide wide '-' (by decide)]
  have noDigits : digits? (c :: cs) = none := by
    simp [digits?, isDigit_of_wide wide]
  simp [scan?, unsigned, whole?, noDigits]

namespace Token

/-- Only an ASCII character starts a token. -/
theorem scanWith?_of_wide {c : Char} (wide : 128 ≤ c.toNat) (text? : List Piece → Option String)
    (cs : List Char) : scanWith? text? c cs = none := by
  have other (d : Char) (ascii : d.toNat < 128) : c ≠ d := ne_of_wide wide d ascii
  simp [scanWith?, mark?, other '{' (by decide), other '}' (by decide), other '[' (by decide),
    other ']' (by decide), other ',' (by decide), other ':' (by decide), other '\"' (by decide),
    other 'n' (by decide), other 't' (by decide), other 'f' (by decide), Numeral.scan?_of_wide wide]

theorem scanWith?_bytesOf {c : Char} (ascii : c.toNat < 128) (cs : List Char) :
    scanWith? Piece.utf8? c (bytesOf cs) = (scanWith? Piece.text? c cs).map restInBytes := by
  have word {token : Token} {word : List Char} (ascii : ∀ w ∈ word, w.toNat < 128) :
      (token, ·) <$> afterWord? word (bytesOf cs) = ((token, ·) <$> afterWord? word cs).map restInBytes := by
    rw [afterWord?_bytesOf ascii]
    cases afterWord? word cs <;> rfl
  unfold scanWith?
  split
  · rfl
  split
  · rw [Piece.scan?_bytesOf]
    cases Piece.scan? cs with
    | none => rfl
    | some found => simp [Piece.literalInBytes, Piece.utf8?_bytes, restInBytes]
  split
  · exact word (by simp)
  split
  · exact word (by simp)
  split
  · exact word (by simp)
  · rw [← bytesOf_ascii ascii, Numeral.bytewise_scan? (c :: cs)]
    cases Numeral.scan? (c :: cs) <;> rfl

end Token

theorem isSpace_of_wide {c : Char} (wide : 128 ≤ c.toNat) : isSpace c = false := by
  have other (d : Char) (ascii : d.toNat < 128) : c ≠ d := ne_of_wide wide d ascii
  simp [isSpace, other ' ' (by decide), other '\t' (by decide), other '\n' (by decide),
    other '\r' (by decide)]

/-- A text has the same tokens in bytes as in characters. -/
theorem tokensWith_bytesOf : ∀ cs : List Char,
    tokensWith Piece.utf8? (bytesOf cs) = tokensWith Piece.text? cs
  | [] => by
      show tokensWith Piece.utf8? [] = _
      rw [tokensWith, tokensWith]
  | c :: cs => by
      have start := startAlike (c :: cs)
      generalize bytesOf (c :: cs) = bytes at start
      cases start with
      | wide _ bs wide high =>
          rw [tokensWith_of_none (isSpace_of_wide wide) (Token.scanWith?_of_wide wide _ _),
            tokensWith_of_none (isSpace_of_wide high) (Token.scanWith?_of_wide high _ _)]
      | ascii _ low =>
          cases space : isSpace c with
          | true => rw [tokensWith_space _ space, tokensWith_space _ space, tokensWith_bytesOf cs]
          | false =>
              have read := Token.scanWith?_bytesOf low cs
              cases scanned : Token.scanWith? Piece.text? c cs with
              | none =>
                  rw [scanned] at read
                  rw [tokensWith_of_none space scanned, tokensWith_of_none space read]
              | some found =>
                  obtain ⟨token, rest⟩ := found
                  have shorter := Token.length_scanWith? scanned
                  rw [scanned] at read
                  rw [tokensWith_cons space scanned, tokensWith_cons space read, tokensWith_bytesOf rest]
  termination_by cs => cs.length

theorem tokensOfBytes_toUTF8 (text : String) : tokensOfBytes text.toUTF8 = tokens text.toList := by
  have bytes : text.toUTF8.data.toList = text.toList.flatMap String.utf8EncodeChar := by
    rw [String.toUTF8_eq_toByteArray, ← String.utf8Encode_toList]
    exact List.toList_data_toByteArray
  rw [tokensOfBytes, bytes]
  exact tokensWith_bytesOf text.toList

theorem Tree.ofBytes_toUTF8 (text : String) : Tree.ofBytes text.toUTF8 = Tree.ofText text := by
  rw [ofBytes, ofText, tokensOfBytes_toUTF8]

end Paycard.Json
