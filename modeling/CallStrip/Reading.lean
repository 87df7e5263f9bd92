/-!
Readers that take letters off the front of a list. One that takes at least one letter `Shrinks` its
input, which is what makes loops over repeated parts end; one that takes any number `Stays`.
-/

namespace CallStrip

abbrev Reading (σ ε : Type) := StateT (List σ) (Except ε)

namespace Reading

variable {σ ε α β : Type}

def Stays (p : Reading σ ε α) : Prop := ∀ ⦃s v r⦄, p s = .ok (v, r) → r.length ≤ s.length

def Shrinks (p : Reading σ ε α) : Prop := ∀ ⦃s v r⦄, p s = .ok (v, r) → r.length < s.length

theorem Shrinks.stays {p : Reading σ ε α} (h : Shrinks p) : Stays p :=
  fun _ _ _ hp => Nat.le_of_lt (h hp)

theorem stays_pure (a : α) : Stays (pure a : Reading σ ε α) := by
  intro s v r h
  cases h
  exact Nat.le_refl _

theorem bind_eq_ok {p : Reading σ ε α} {f : α → Reading σ ε β} {s r : List σ} {w : β}
    (h : (p >>= f) s = .ok (w, r)) : ∃ v t, p s = .ok (v, t) ∧ f v t = .ok (w, r) := by
  simp only [bind, StateT.bind, Except.bind] at h
  split at h
  · cases h
  · next v hv => exact ⟨v.1, v.2, hv, h⟩

theorem bind_ok {p : Reading σ ε α} {f : α → Reading σ ε β} {s t : List σ} {v : α}
    (h : p s = .ok (v, t)) : (p >>= f) s = f v t := by
  simp only [bind, StateT.bind, Except.bind, h]

theorem bind_error {p : Reading σ ε α} {f : α → Reading σ ε β} {s : List σ} {e : ε}
    (h : p s = .error e) : (p >>= f) s = .error e := by
  simp only [bind, StateT.bind, Except.bind, h]

theorem map_ok {p : Reading σ ε α} {f : α → β} {s t : List σ} {v : α} (h : p s = .ok (v, t)) :
    (f <$> p) s = .ok (f v, t) := by
  simp only [Functor.map, StateT.map, bind, Except.bind, h, pure, Except.pure]

theorem map_error {p : Reading σ ε α} {f : α → β} {s : List σ} {e : ε} (h : p s = .error e) :
    (f <$> p) s = .error e := by
  simp only [Functor.map, StateT.map, bind, Except.bind, h]

theorem map_eq_ok {p : Reading σ ε α} {f : α → β} {s r : List σ} {w : β}
    (h : (f <$> p) s = .ok (w, r)) : ∃ v, p s = .ok (v, r) ∧ f v = w := by
  have hbind : (p >>= fun v => pure (f v)) s = .ok (w, r) := h
  obtain ⟨v, t, hv, hw⟩ := bind_eq_ok hbind
  cases hw
  exact ⟨v, hv, rfl⟩

theorem Stays.bind {p : Reading σ ε α} {f : α → Reading σ ε β} (hp : Stays p)
    (hf : ∀ a, Stays (f a)) : Stays (p >>= f) := by
  intro s w r h
  obtain ⟨v, t, hv, hw⟩ := bind_eq_ok h
  exact Nat.le_trans (hf v hw) (hp hv)

theorem Shrinks.bind {p : Reading σ ε α} {f : α → Reading σ ε β} (hp : Shrinks p)
    (hf : ∀ a, Stays (f a)) : Shrinks (p >>= f) := by
  intro s w r h
  obtain ⟨v, t, hv, hw⟩ := bind_eq_ok h
  exact Nat.lt_of_le_of_lt (hf v hw) (hp hv)

theorem Stays.bind_shrinks {p : Reading σ ε α} {f : α → Reading σ ε β} (hp : Stays p)
    (hf : ∀ a, Shrinks (f a)) : Shrinks (p >>= f) := by
  intro s w r h
  obtain ⟨v, t, hv, hw⟩ := bind_eq_ok h
  exact Nat.lt_of_lt_of_le (hf v hw) (hp hv)

theorem Stays.map {p : Reading σ ε α} (f : α → β) (hp : Stays p) : Stays (f <$> p) :=
  hp.bind fun a => stays_pure (f a)

end Reading

end CallStrip
