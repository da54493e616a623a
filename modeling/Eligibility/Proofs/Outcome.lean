/-!
# Outcomes that may be failures

When a computation in `Except` ends well, so does each of its stages. These lemmas take such a
computation apart, and put it together.
-/

namespace Except

variable {ε ε' α β : Type}

@[simp] theorem pure_eq_ok (a : α) : (pure a : Except ε α) = .ok a := rfl

@[simp] theorem ok_bind (a : α) (f : α → Except ε β) : (.ok a : Except ε α) >>= f = f a := rfl

@[simp] theorem error_bind (e : ε) (f : α → Except ε β) :
    (.error e : Except ε α) >>= f = .error e := rfl

@[simp] theorem bind_eq_ok_iff {x : Except ε α} {f : α → Except ε β} {b : β} :
    x >>= f = .ok b ↔ ∃ a, x = .ok a ∧ f a = .ok b := by
  cases x <;> simp

/-- A check that ends well has nothing to hand on. -/
@[simp high] theorem check_bind_eq_ok_iff {x : Except ε Unit} {f : Unit → Except ε β} {b : β} :
    x >>= f = .ok b ↔ x = .ok () ∧ f () = .ok b := by
  cases x <;> simp

theorem bind_eq_error_iff {x : Except ε α} {f : α → Except ε β} {e : ε} :
    x >>= f = .error e ↔ x = .error e ∨ ∃ a, x = .ok a ∧ f a = .error e := by
  cases x <;> simp

@[simp] theorem map_eq_ok_iff {x : Except ε α} {f : α → β} {b : β} :
    f <$> x = .ok b ↔ ∃ a, x = .ok a ∧ f a = b := by
  cases x with
  | error e => simp [Functor.map, Except.map]
  | ok a => simp [Functor.map, Except.map]

@[simp] theorem map_eq_error_iff {x : Except ε α} {f : α → β} {e : ε} :
    f <$> x = .error e ↔ x = .error e := by
  cases x with
  | error e => simp [Functor.map, Except.map]
  | ok a => simp [Functor.map, Except.map]

@[simp] theorem mapError_ok (f : ε → ε') (a : α) : (.ok a : Except ε α).mapError f = .ok a := rfl

@[simp] theorem mapError_error (f : ε → ε') (e : ε) :
    (.error e : Except ε α).mapError f = .error (f e) := rfl

@[simp] theorem mapError_eq_ok_iff {x : Except ε α} {f : ε → ε'} {a : α} :
    x.mapError f = .ok a ↔ x = .ok a := by
  cases x <;> simp

theorem mapError_bind {x : Except ε α} {f : α → Except ε β} (g : ε → ε') :
    (x >>= f).mapError g = x.mapError g >>= fun a => (f a).mapError g := by
  cases x <;> rfl

theorem mem_toOption_iff {x : Except ε α} {a : α} : a ∈ x.toOption ↔ x = .ok a := by
  cases x <;> simp [Except.toOption]

/-- A list of computations ends well when each of them does. -/
theorem mapM_eq_ok_iff {f : α → Except ε β} {as : List α} {bs : List β} :
    as.mapM f = .ok bs ↔ as.map f = bs.map .ok := by
  induction as generalizing bs with
  | nil => cases bs <;> simp
  | cons a as ih => cases bs <;> simp [List.mapM_cons, ih]

theorem exists_of_mem_mapM {f : α → Except ε β} {as : List α} {bs : List β}
    (h : as.mapM f = .ok bs) {b : β} (hb : b ∈ bs) : ∃ a ∈ as, f a = .ok b := by
  have hmem : .ok b ∈ as.map f := mapM_eq_ok_iff.1 h ▸ List.mem_map_of_mem hb
  exact List.mem_map.1 hmem

theorem exists_mem_of_mapM {f : α → Except ε β} {as : List α} {bs : List β}
    (h : as.mapM f = .ok bs) {a : α} (ha : a ∈ as) : ∃ b ∈ bs, f a = .ok b := by
  have hmem : f a ∈ bs.map .ok := mapM_eq_ok_iff.1 h ▸ List.mem_map_of_mem ha
  obtain ⟨b, hb, heq⟩ := List.mem_map.1 hmem
  exact ⟨b, hb, heq.symm⟩

theorem exists_of_mapM_eq_error {f : α → Except ε β} {as : List α} {e : ε}
    (h : as.mapM f = .error e) : ∃ a ∈ as, f a = .error e := by
  induction as with
  | nil => cases h
  | cons a as ih =>
    rw [List.mapM_cons, bind_eq_error_iff] at h
    rcases h with h | ⟨b, -, h⟩
    · exact ⟨a, List.mem_cons_self, h⟩
    · rcases bind_eq_error_iff.1 h with h | ⟨bs, -, h⟩
      · obtain ⟨a', ha', he⟩ := ih h
        exact ⟨a', List.mem_cons_of_mem _ ha', he⟩
      · cases h

/-- Computations in another order have the same results, in that order. -/
theorem exists_perm_of_mapM {f : α → Except ε β} {as as' : List α} (hperm : as.Perm as')
    {bs : List β} (h : as.mapM f = .ok bs) : ∃ bs', as'.mapM f = .ok bs' ∧ bs.Perm bs' := by
  induction hperm generalizing bs with
  | nil => exact ⟨bs, h, .refl bs⟩
  | cons a _ ih =>
    simp only [List.mapM_cons, bind_eq_ok_iff] at h ⊢
    obtain ⟨b, hb, bs, hbs, h⟩ := h
    obtain rfl := Except.ok.inj h
    obtain ⟨bs', hbs', hperm⟩ := ih hbs
    exact ⟨b :: bs', ⟨b, hb, bs', hbs', rfl⟩, hperm.cons b⟩
  | swap a a' _ =>
    simp only [List.mapM_cons, bind_eq_ok_iff] at h ⊢
    obtain ⟨b', hb', tail, ⟨b, hb, bs, hbs, htail⟩, h⟩ := h
    obtain rfl := Except.ok.inj htail
    obtain rfl := Except.ok.inj h
    exact ⟨b :: b' :: bs, ⟨b, hb, b' :: bs, ⟨b', hb', bs, hbs, rfl⟩, rfl⟩, .swap b b' bs⟩
  | trans _ _ ih ih' =>
    obtain ⟨bs', hbs', hperm⟩ := ih h
    obtain ⟨bs'', hbs'', hperm'⟩ := ih' hbs'
    exact ⟨bs'', hbs'', hperm.trans hperm'⟩

/-- Of a list of computations the first that fails is the one whose failure counts. -/
theorem mapM_of_firstError {f : α → Except ε β} {before after : List α} {a : α} {e : ε}
    (hbefore : ∀ a ∈ before, ∃ b, f a = .ok b) (ha : f a = .error e) :
    (before ++ a :: after).mapM f = .error e := by
  induction before with
  | nil => simp [List.mapM_cons, ha]
  | cons first before ih =>
    obtain ⟨⟨b, hb⟩, hbefore⟩ := List.forall_mem_cons.1 hbefore
    simp [List.mapM_cons, hb, ih hbefore]

end Except
