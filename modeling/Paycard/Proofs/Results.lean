import Mathlib.Data.List.Forall2

/-! # Results that may fail

When a computation that may fail succeeds, and with what. A list is read item by item, so it is read
exactly when each item is. `Yields` says of a computation what holds of its outcome whenever there is one,
and `SameOutcome` of two that they come to the same; each way of putting computations together carries both
along.
-/

namespace Paycard

variable {ε δ α β : Type} {x : Except ε α}

theorem map_eq_error_iff {f : α → β} {e : ε} : f <$> x = .error e ↔ x = .error e := by
  cases x with
  | error e' => simp [Functor.map, Except.map]
  | ok found => simp [Functor.map, Except.map]

theorem map_eq_ok_iff {f : α → β} {value : β} :
    f <$> x = .ok value ↔ ∃ found, x = .ok found ∧ f found = value := by
  cases x with
  | error e => simp [Functor.map, Except.map]
  | ok found => simp [Functor.map, Except.map]

theorem mapError_eq_ok_iff {f : ε → δ} {value : α} : x.mapError f = .ok value ↔ x = .ok value := by
  cases x with
  | error e => simp [Except.mapError]
  | ok found => simp [Except.mapError]

theorem bind_eq_ok_iff {f : α → Except ε β} {value : β} :
    x >>= f = .ok value ↔ ∃ found, x = .ok found ∧ f found = .ok value := by
  cases x with
  | error e => simp [Bind.bind, Except.bind]
  | ok found => simp [Bind.bind, Except.bind]

theorem mapM_eq_ok_iff {read : α → Except ε β} {items : List α} {values : List β} :
    items.mapM read = .ok values ↔
      List.Forall₂ (fun item value => read item = .ok value) items values := by
  induction items generalizing values with
  | nil =>
      rw [List.mapM_nil, List.forall₂_nil_left_iff]
      exact ⟨fun read => by cases read; rfl, fun empty => by rw [empty]; rfl⟩
  | cons item items ih =>
      simp only [List.mapM_cons, bind_eq_ok_iff, ih, List.forall₂_cons_left_iff]
      constructor
      · rintro ⟨value, first, rest, others, same⟩
        cases same
        exact ⟨value, rest, first, others, rfl⟩
      · rintro ⟨value, rest, first, others, rfl⟩
        exact ⟨value, first, rest, others, rfl⟩

theorem mapM_append_eq_ok_iff {read : α → Except ε β} {items others : List α} {values : List β} :
    (items ++ others).mapM read = .ok values ↔ ∃ first last,
      items.mapM read = .ok first ∧ others.mapM read = .ok last ∧ values = first ++ last := by
  simp only [List.mapM_append, bind_eq_ok_iff]
  constructor
  · rintro ⟨first, reads, last, readsOthers, same⟩
    cases same
    exact ⟨first, last, reads, readsOthers, rfl⟩
  · rintro ⟨first, last, reads, readsOthers, rfl⟩
    exact ⟨first, reads, last, readsOthers, rfl⟩

theorem exists_of_mapM_eq_ok {read : α → Except ε β} {items : List α} {values : List β} {item : α}
    (reads : items.mapM read = .ok values) (member : item ∈ items) : ∃ value, read item = .ok value := by
  obtain ⟨before, after, rfl⟩ := List.append_of_mem member
  obtain ⟨_, rest, -, reads, -⟩ := mapM_append_eq_ok_iff.mp reads
  rw [List.mapM_cons, bind_eq_ok_iff] at reads
  obtain ⟨value, here, -⟩ := reads
  exact ⟨value, here⟩

/-! ## What holds of every outcome -/

/-- What a computation comes to has this property, if it comes to anything. -/
def Yields (P : α → Prop) (x : Except ε α) : Prop := ∀ value, x = .ok value → P value

section Yields

variable {P : α → Prop} {Q : β → Prop}

theorem yields_ok {value : α} (holds : P value) : Yields P (.ok value : Except ε α) := by
  intro _ same
  cases same
  exact holds

theorem yields_error (e : ε) : Yields P (.error e) := by
  intro _ same
  cases same

theorem Yields.bind {f : α → Except ε β} (first : Yields P x)
    (next : ∀ value, P value → Yields Q (f value)) : Yields Q (x >>= f) := by
  intro value found
  obtain ⟨middle, reads, goesOn⟩ := bind_eq_ok_iff.mp found
  exact next middle (first middle reads) value goesOn

/-- The last of several computations alone may see to the property. -/
theorem yields_bind {f : α → Except ε β} (next : ∀ value, Yields Q (f value)) : Yields Q (x >>= f) := by
  intro value found
  obtain ⟨middle, -, goesOn⟩ := bind_eq_ok_iff.mp found
  exact next middle value goesOn

theorem Yields.map {f : α → β} (yields : Yields P x) (keeps : ∀ value, P value → Q (f value)) :
    Yields Q (f <$> x) := by
  intro value found
  obtain ⟨before, reads, rfl⟩ := map_eq_ok_iff.mp found
  exact keeps before (yields before reads)

theorem yields_mapM {read : β → Except ε α} (reads : ∀ item, Yields P (read item)) (items : List β) :
    Yields (fun values => ∀ value ∈ values, P value) (items.mapM read) := by
  induction items with
  | nil => exact yields_ok (by simp)
  | cons item items ih =>
      rw [List.mapM_cons]
      refine (reads item).bind fun first holds => ih.bind fun others hold => ?_
      exact yields_ok (List.forall_mem_cons.mpr ⟨holds, hold⟩)

end Yields

/-! ## Computations with one outcome -/

/-- Two computations come to the same, or both of them fail, be it for different causes. -/
def SameOutcome (x : Except ε α) (y : Except δ α) : Prop := ∀ value, x = .ok value ↔ y = .ok value

section SameOutcome

variable {y : Except δ α}

theorem sameOutcome_refl (x : Except ε α) : SameOutcome x x := fun _ => .rfl

theorem SameOutcome.symm (same : SameOutcome x y) : SameOutcome y x := fun value => (same value).symm

theorem SameOutcome.trans {γ : Type} {z : Except γ α} (first : SameOutcome x y) (second : SameOutcome y z) :
    SameOutcome x z := fun value => (first value).trans (second value)

theorem sameOutcome_error (e : ε) (e' : δ) : SameOutcome (.error e : Except ε α) (.error e' : Except δ α) := by
  intro value
  simp

theorem SameOutcome.bind {f : α → Except ε β} {g : α → Except δ β} (first : SameOutcome x y)
    (next : ∀ value, SameOutcome (f value) (g value)) : SameOutcome (x >>= f) (y >>= g) := by
  intro value
  rw [bind_eq_ok_iff, bind_eq_ok_iff]
  exact exists_congr fun middle => and_congr (first middle) (next middle value)

/-- What fails at the end fails, wherever it got to before. -/
theorem sameOutcome_bind_error {f : α → Except ε β} {e : δ}
    (next : ∀ value, SameOutcome (f value) (.error e : Except δ β)) :
    SameOutcome (x >>= f) (.error e : Except δ β) := by
  intro value
  rw [bind_eq_ok_iff]
  constructor
  · rintro ⟨middle, -, ends⟩
    exact (next middle value).mp ends
  · intro fails
    cases fails

theorem sameOutcome_bind_ok {f : α → Except ε α}
    (next : ∀ value, SameOutcome (f value) (.ok value : Except ε α)) : SameOutcome (x >>= f) x := by
  have same := (sameOutcome_refl x).bind next
  rwa [show x >>= Except.ok = x from bind_pure x] at same

theorem SameOutcome.map (same : SameOutcome x y) (f : α → β) : SameOutcome (f <$> x) (f <$> y) := by
  intro value
  rw [map_eq_ok_iff, map_eq_ok_iff]
  exact exists_congr fun found => and_congr_left fun _ => same found

theorem sameOutcome_mapM {γ : Type} {read : β → Except ε α} {other : γ → Except δ α} {f : β → γ}
    {items : List β} (reads : ∀ item ∈ items, SameOutcome (read item) (other (f item))) :
    SameOutcome (items.mapM read) ((items.map f).mapM other) := by
  induction items with
  | nil => exact fun value => by simp [pure, Except.pure]
  | cons item items ih =>
      obtain ⟨here, later⟩ := List.forall_mem_cons.mp reads
      rw [List.map_cons, List.mapM_cons, List.mapM_cons]
      refine here.bind fun first => (ih later).bind fun others value => ?_
      simp [pure, Except.pure]

end SameOutcome

end Paycard
