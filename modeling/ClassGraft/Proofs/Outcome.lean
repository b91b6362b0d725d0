import Mathlib.Data.List.Forall2

/-!
# Steps that may fail

What is known when a step made of others succeeds: each of the others did, and its value went into
the next (`Except.bind_eq_ok`, `Except.mapM_eq_ok`).
-/

namespace ClassGraft

variable {ε ε' α β : Type}

/-! ### Lists side by side -/

theorem exists_of_mem_right {R : α → β → Prop} {items : List α} {values : List β}
    (h : List.Forall₂ R items values) {value : β} (hm : value ∈ values) :
    ∃ item ∈ items, R item value := by
  induction h with
  | nil => simp at hm
  | cons hr _ ih =>
    rcases List.mem_cons.mp hm with rfl | hm
    · exact ⟨_, List.mem_cons_self, hr⟩
    · obtain ⟨item, hi, hr⟩ := ih hm
      exact ⟨item, List.mem_cons_of_mem _ hi, hr⟩

theorem exists_of_mem_left {R : α → β → Prop} {items : List α} {values : List β}
    (h : List.Forall₂ R items values) {item : α} (hm : item ∈ items) :
    ∃ value ∈ values, R item value :=
  exists_of_mem_right h.flip hm

/-! ### Steps without a state -/

theorem Except.bind_eq_ok {x : Except ε α} {f : α → Except ε β} {b : β} :
    x >>= f = .ok b ↔ ∃ a, x = .ok a ∧ f a = .ok b := by
  cases x with
  | error e => simp [bind, Except.bind]
  | ok a => simp [bind, Except.bind]

theorem Except.map_eq_ok {x : Except ε α} {f : α → β} {b : β} :
    x.map f = .ok b ↔ ∃ a, x = .ok a ∧ f a = b := by
  cases x with
  | error e => simp [Except.map]
  | ok a => simp [Except.map]

theorem Except.mapError_eq_ok {x : Except ε α} {f : ε → ε'} {a : α} :
    x.mapError f = .ok a ↔ x = .ok a := by
  cases x with
  | error e => simp [Except.mapError]
  | ok a => simp [Except.mapError]

theorem Except.bind_eq_error {x : Except ε α} {f : α → Except ε β} {e : ε} :
    x >>= f = .error e ↔ x = .error e ∨ ∃ a, x = .ok a ∧ f a = .error e := by
  cases x with
  | error e => simp [bind, Except.bind]
  | ok a => simp [bind, Except.bind]

theorem Except.mapError_eq_error {x : Except ε α} {f : ε → ε'} {e : ε'} :
    x.mapError f = .error e ↔ ∃ cause, x = .error cause ∧ f cause = e := by
  cases x with
  | error e => simp [Except.mapError]
  | ok a => simp [Except.mapError]

@[simp] theorem Except.pure_eq_ok {a b : α} : (pure a : Except ε α) = .ok b ↔ a = b :=
  ⟨fun h => Except.ok.inj h, fun h => congrArg Except.ok h⟩

@[simp] theorem Except.throw_ne_ok {e : ε} {a : α} : (throw e : Except ε α) ≠ .ok a :=
  fun h => nomatch h

theorem Except.pure_ne_error {a : α} {e : ε} : (pure a : Except ε α) ≠ .error e :=
  fun h => nomatch h

/-- A result with a property, which may be found by evaluation. -/
theorem Except.exists_of_any {x : Except ε α} {p : α → Bool} (h : x.toOption.any p = true) :
    ∃ a, x = .ok a ∧ p a = true := by
  cases x with
  | error e => nomatch h
  | ok a => exact ⟨a, rfl, h⟩

theorem Except.ite_pure_eq_ok {p : Prop} [Decidable p] {a b c : α} :
    (if p then pure a else pure b : Except ε α) = .ok c ↔ (if p then a else b) = c := by
  split_ifs
  · exact pure_eq_ok
  · exact pure_eq_ok

/-- A check that comes before a step did not stop it. -/
theorem Except.guard_eq_ok {p : Prop} [Decidable p] {e : ε} {f : α → Except ε β}
    {x : Except ε β} {b : β} : (if p then throw e >>= f else x) = .ok b ↔ ¬p ∧ x = .ok b := by
  split_ifs with h
  · simp [h, bind, Except.bind, throw, throwThe, MonadExceptOf.throw]
  · simp [h]

/-- What stops a check that comes before a step, or the step. -/
theorem Except.guard_eq_error {p : Prop} [Decidable p] {e e' : ε} {f : α → Except ε β}
    {x : Except ε β} : (if p then throw e >>= f else x) = .error e' ↔
      p ∧ e = e' ∨ ¬p ∧ x = .error e' := by
  split_ifs with h
  · simp [h, bind, Except.bind, throw, throwThe, MonadExceptOf.throw]
  · simp [h]

/-- A step that is made for each item of a list gives one value for each. -/
theorem Except.mapM_eq_ok {f : α → Except ε β} {items : List α} {values : List β} :
    items.mapM f = .ok values ↔
      List.Forall₂ (fun item value => f item = .ok value) items values := by
  induction items generalizing values with
  | nil =>
    rw [List.mapM_nil, pure_eq_ok, List.forall₂_nil_left_iff]
    exact eq_comm
  | cons item rest ih =>
    rw [List.mapM_cons, bind_eq_ok]
    constructor
    · rintro ⟨value, hv, h⟩
      obtain ⟨others, ho, h⟩ := bind_eq_ok.mp h
      obtain rfl := pure_eq_ok.mp h
      exact .cons hv (ih.mp ho)
    · intro h
      cases h with
      | cons hv ho => exact ⟨_, hv, bind_eq_ok.mpr ⟨_, ih.mpr ho, rfl⟩⟩

/-- What stops a step that is made for each item of a list stops it for one of them. -/
theorem Except.exists_of_mapM_eq_error {f : α → Except ε β} {items : List α} {e : ε}
    (h : items.mapM f = .error e) : ∃ item ∈ items, f item = .error e := by
  induction items with
  | nil => nomatch h
  | cons item rest ih =>
    rw [List.mapM_cons, bind_eq_error] at h
    rcases h with h | ⟨value, -, h⟩
    · exact ⟨item, List.mem_cons_self, h⟩
    · rcases bind_eq_error.mp h with h | ⟨others, -, h⟩
      · obtain ⟨found, hf, h⟩ := ih h
        exact ⟨found, List.mem_cons_of_mem _ hf, h⟩
      · nomatch h

/-! ### Steps with a state -/

variable {σ : Type} {s s' : σ}

theorem ExceptT.bind_of_ok {x : ExceptT ε (StateM σ) α} {f : α → ExceptT ε (StateM σ) β} {a : α}
    (h : x s = (.ok a, s')) : (x >>= f) s = f a s' := by
  simp only [bind, ExceptT.bind, ExceptT.mk, StateT.bind, h]
  rfl

theorem ExceptT.bind_of_error {x : ExceptT ε (StateM σ) α} {f : α → ExceptT ε (StateM σ) β} {e : ε}
    (h : x s = (.error e, s')) : (x >>= f) s = (.error e, s') := by
  simp only [bind, ExceptT.bind, ExceptT.mk, StateT.bind, h]
  rfl

theorem ExceptT.bind_eq_ok {x : ExceptT ε (StateM σ) α} {f : α → ExceptT ε (StateM σ) β} {b : β} :
    (x >>= f) s = (.ok b, s') ↔ ∃ a t, x s = (.ok a, t) ∧ f a t = (.ok b, s') := by
  obtain ⟨result, t, hx⟩ : ∃ result t, x s = (result, t) := ⟨_, _, rfl⟩
  cases result with
  | error e =>
    rw [bind_of_error hx, hx]
    constructor
    · intro h
      nomatch h
    · rintro ⟨a, t', h, -⟩
      nomatch h
  | ok a =>
    rw [bind_of_ok hx, hx]
    refine ⟨fun h => ⟨a, t, rfl, h⟩, fun ⟨a', t', h, h'⟩ => ?_⟩
    obtain ⟨ha, rfl⟩ := Prod.mk.inj h
    obtain rfl := Except.ok.inj ha
    exact h'

@[simp] theorem ExceptT.pure_eq_ok {a b : α} :
    (pure a : ExceptT ε (StateM σ) α) s = (.ok b, s') ↔ a = b ∧ s = s' := by
  show ((.ok a : Except ε α), s) = (.ok b, s') ↔ _
  rw [Prod.mk.injEq, Except.ok.injEq]

/-- A step that does not look at the state. -/
theorem ExceptT.lift_eq_ok {x : Except ε α} {a : α} :
    (liftM x : ExceptT ε (StateM σ) α) s = (.ok a, s') ↔ x = .ok a ∧ s = s' := by
  show (x, s) = (.ok a, s') ↔ _
  rw [Prod.mk.injEq]

@[simp] theorem ExceptT.get_eq_ok {a : σ} :
    (get : ExceptT ε (StateM σ) σ) s = (.ok a, s') ↔ s = a ∧ s = s' := by
  show ((.ok s : Except ε σ), s) = (.ok a, s') ↔ _
  rw [Prod.mk.injEq, Except.ok.injEq]

@[simp] theorem ExceptT.modify_eq_ok {f : σ → σ} {a : PUnit} :
    (modify f : ExceptT ε (StateM σ) PUnit) s = (.ok a, s') ↔ f s = s' := by
  show ((.ok PUnit.unit : Except ε PUnit), f s) = (.ok a, s') ↔ _
  simp

theorem ExceptT.throw_ne_ok {e : ε} {a : α} :
    (throw e : ExceptT ε (StateM σ) α) s ≠ (.ok a, s') :=
  fun h => nomatch h

/-- A check that comes before a step did not stop it. -/
theorem ExceptT.guard_eq_ok {p : Prop} [Decidable p] {e : ε} {f : α → ExceptT ε (StateM σ) β}
    {x : ExceptT ε (StateM σ) β} {b : β} :
    (if p then throw e >>= f else x) s = (.ok b, s') ↔ ¬p ∧ x s = (.ok b, s') := by
  split_ifs with h
  · simp [h, throw_ne_ok]
  · simp [h]

/-- A step whose errors are thrown again in other words. -/
theorem ExceptT.rethrow_eq_ok {x : ExceptT ε (StateM σ) α} {f : ε → ε} {a : α} :
    (tryCatch x fun e => throw (f e)) s = (.ok a, s') ↔ x s = (.ok a, s') := by
  obtain ⟨result, t, hx⟩ : ∃ result t, x s = (result, t) := ⟨_, _, rfl⟩
  simp only [tryCatch, tryCatchThe, MonadExceptOf.tryCatch, ExceptT.tryCatch, ExceptT.mk, bind,
    StateT.bind, hx]
  cases result with
  | ok value => exact Iff.rfl
  | error e =>
    constructor
    · intro h
      nomatch h
    · intro h
      nomatch h

end ClassGraft
