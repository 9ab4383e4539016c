import Mathlib.Data.List.Forall2

/-!
# Results that are not errors

A sequence of steps gives a result when each step does. A list is read when each of its members is,
and what may be missing is read when it is missing or can be read.
-/
namespace CoverageQuery.Outcome

variable {ε δ α β : Type}

theorem throw_ne_ok {e : ε} {a : α} : (throw e : Except ε α) ≠ .ok a := by
  simp [throw, throwThe, MonadExceptOf.throw]

theorem bind_eq_ok {x : Except ε α} {f : α → Except ε β} {b : β} :
    x >>= f = .ok b ↔ ∃ a, x = .ok a ∧ f a = .ok b := by
  cases x with
  | error e => exact ⟨fun h => absurd h (by simp [bind, Except.bind]), by simp⟩
  | ok a => simp [bind, Except.bind]

theorem first_eq_ok {x : Except ε Unit} {y : Except ε β} {b : β} :
    (x >>= fun _ => y) = .ok b ↔ x = .ok () ∧ y = .ok b :=
  bind_eq_ok.trans ⟨fun ⟨_, h⟩ => h, fun h => ⟨(), h⟩⟩

theorem map_eq_ok {x : Except ε α} {f : α → β} {b : β} :
    x.map f = .ok b ↔ ∃ a, x = .ok a ∧ f a = b := by
  cases x with
  | error e => simp [Except.map]
  | ok a => simp [Except.map]

theorem mapError_eq_ok {x : Except ε α} {f : ε → δ} {a : α} :
    x.mapError f = .ok a ↔ x = .ok a := by
  cases x with
  | error e =>
    constructor
    · intro h
      have hne : (Except.error (f e) : Except δ α) ≠ .ok a := by simp
      exact absurd h hne
    · intro h
      exact absurd h (by simp)
  | ok b => simp only [show (Except.ok b : Except ε α).mapError f = .ok b from rfl, Except.ok.injEq]

theorem mapError_eq_error {x : Except ε α} {f : ε → δ} {d : δ} :
    x.mapError f = .error d ↔ ∃ e, x = .error e ∧ d = f e := by
  cases x with
  | error e => simp [Except.mapError, eq_comm]
  | ok a => simp [Except.mapError]

theorem mapM_eq_ok {f : α → Except ε β} {as : List α} {bs : List β} :
    as.mapM f = .ok bs ↔ List.Forall₂ (fun a b => f a = .ok b) as bs := by
  induction as generalizing bs with
  | nil =>
    rw [List.mapM_nil, List.forall₂_nil_left_iff]
    exact ⟨fun h => (Except.ok.inj h).symm, fun h => h ▸ rfl⟩
  | cons a as ih =>
    simp only [List.mapM_cons, bind_eq_ok, List.forall₂_cons_left_iff, ih]
    constructor
    · rintro ⟨b, hb, rest, hrest, h⟩
      exact ⟨b, rest, hb, hrest, (Except.ok.inj h).symm⟩
    · rintro ⟨b, rest, hb, hrest, rfl⟩
      exact ⟨b, hb, rest, hrest, rfl⟩

variable {R : α → β → Prop}

theorem exists_forall₂ {as : List α} :
    (∃ bs, List.Forall₂ R as bs) ↔ ∀ a ∈ as, ∃ b, R a b := by
  induction as with
  | nil => exact ⟨fun _ a ha => absurd ha (by simp), fun _ => ⟨[], .nil⟩⟩
  | cons a as ih =>
    rw [List.forall_mem_cons, ← ih]
    constructor
    · rintro ⟨_, hb | ⟨hb, hrest⟩⟩
      exact ⟨⟨_, hb⟩, ⟨_, hrest⟩⟩
    · rintro ⟨⟨b, hb⟩, bs, hbs⟩
      exact ⟨b :: bs, .cons hb hbs⟩

theorem exists_of_forall₂ {as : List α} {bs : List β} (h : List.Forall₂ R as bs) :
    ∀ b ∈ bs, ∃ a ∈ as, R a b := by
  induction h with
  | nil => exact fun b hb => absurd hb (by simp)
  | @cons a b as bs hb _ ih =>
    intro c hc
    rcases List.mem_cons.1 hc with rfl | hc
    · exact ⟨a, List.mem_cons_self, hb⟩
    · obtain ⟨d, hd, hread⟩ := ih c hc
      exact ⟨d, List.mem_cons_of_mem a hd, hread⟩

theorem exists_rel {a? : Option α} : (∃ b?, Option.Rel R a? b?) ↔ ∀ a ∈ a?, ∃ b, R a b := by
  cases a? with
  | none => exact ⟨fun _ a ha => absurd ha (by simp), fun _ => ⟨none, .none⟩⟩
  | some a =>
    constructor
    · rintro ⟨_, ⟨hb⟩⟩ c hc
      obtain rfl := Option.some.inj hc
      exact ⟨_, hb⟩
    · intro h
      obtain ⟨b, hb⟩ := h a rfl
      exact ⟨some b, .some hb⟩

theorem exists_of_rel {a? : Option α} {b? : Option β} (h : Option.Rel R a? b?) :
    ∀ b ∈ b?, ∃ a ∈ a?, R a b := by
  cases h with
  | none => exact fun b hb => absurd hb (by simp)
  | some hb =>
    intro c hc
    obtain rfl := Option.some.inj hc
    exact ⟨_, rfl, hb⟩

theorem isSome_of_rel {a? : Option α} {b? : Option β} (h : Option.Rel R a? b?) :
    a?.isSome = b?.isSome := by
  cases h <;> rfl

theorem rel_or {a? a'? : Option α} {b? b'? : Option β} (h : Option.Rel R a? b?)
    (h' : Option.Rel R a'? b'?) : Option.Rel R (a?.or a'?) (b?.or b'?) := by
  cases h with
  | none => exact h'
  | some h => exact .some h

end CoverageQuery.Outcome
