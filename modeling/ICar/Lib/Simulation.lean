import ICar.Lib.Run

/-!
# Two systems compared

`M.Bisim N R`: from `R`-related states, an event is possible in both systems or in neither, and
leads to `R`-related states. One step is compared once, in reachable states; the rest follows.

* `Bisim.run`: related states stay related over every run.
* `Bisim.symm`, `Bisim.trans`: two implementations of one system are compared through it.
* `Bisim.inv`: what holds in the reachable states of one system holds, through `R`, in those of
  the other.
* `Projection.run_map`: a part of the state that hidden events leave alone, and that the others move
  by itself, runs by itself over the events that are not hidden.
* `Reach.map`: a component of a larger system, which each step of the whole moves by one of its
  own steps or leaves alone, only reaches its own reachable states.
-/

namespace Sys

variable {σ τ υ ε ε' : Type*} {M : Sys σ ε} {N : Sys τ ε} {O : Sys υ ε}

theorem rel_cases {R : σ → τ → Prop} {x : Option σ} {y : Option τ} (h : Option.Rel R x y) :
    (x = none ∧ y = none) ∨ ∃ s t, x = some s ∧ y = some t ∧ R s t := by
  cases h with
  | none => exact .inl ⟨rfl, rfl⟩
  | some hst => exact .inr ⟨_, _, rfl, rfl, hst⟩

/-- The two systems do the same, up to `R`. -/
structure Bisim (M : Sys σ ε) (N : Sys τ ε) (R : σ → τ → Prop) : Prop where
  init : R M.init N.init
  step : ∀ s t e, M.Reach s → N.Reach t → R s t → Option.Rel R (M.step s e) (N.step t e)

namespace Bisim

variable {R : σ → τ → Prop} {S : τ → υ → Prop}

/-- **Related states stay related**, event by event. -/
theorem run_rel (h : M.Bisim N R) (es : List ε) : ∀ {s : σ} {t : τ}, M.Reach s → N.Reach t → R s t →
    Option.Rel R (M.run s es) (N.run t es) := by
  induction es with
  | nil => intro s t _ _ hst; exact .some hst
  | cons e es ih =>
    intro s t hs ht hst
    rw [run_cons, run_cons]
    rcases rel_cases (h.step s t e hs ht hst) with ⟨hM, hN⟩ | ⟨s', t', hM, hN, hst'⟩
    · rw [hM, hN]
      exact .none
    · rw [hM, hN]
      exact ih (hs.step hM) (ht.step hN) hst'

/-- From the start. -/
theorem run (h : M.Bisim N R) (es : List ε) : Option.Rel R (M.run M.init es) (N.run N.init es) :=
  h.run_rel es .init .init h.init

/-- A reachable state has a counterpart. -/
theorem reach (h : M.Bisim N R) {s : σ} (hs : M.Reach s) : ∃ t, N.Reach t ∧ R s t := by
  obtain ⟨es, hes⟩ := hs
  rcases rel_cases (h.run es) with ⟨hM, -⟩ | ⟨s', t, hM, hN, hst⟩
  · rw [hes] at hM
    cases hM
  · rw [hes] at hM
    cases hM
    exact ⟨t, ⟨es, hN⟩, hst⟩

/-- **An invariant carried over.** -/
theorem inv (h : M.Bisim N R) {P : τ → Prop} {Q : σ → Prop} (hP : ∀ t, N.Reach t → P t)
    (hPQ : ∀ s t, R s t → P t → Q s) {s : σ} (hs : M.Reach s) : Q s := by
  obtain ⟨t, ht, hst⟩ := h.reach hs
  exact hPQ s t hst (hP t ht)

theorem symm (h : M.Bisim N R) : N.Bisim M fun t s => R s t where
  init := h.init
  step t s e ht hs hst := by
    rcases rel_cases (h.step s t e hs ht hst) with ⟨hM, hN⟩ | ⟨s', t', hM, hN, hst'⟩
    · rw [hM, hN]
      exact .none
    · rw [hM, hN]
      exact .some hst'

/-- Through a third system. -/
theorem trans (h : M.Bisim N R) (h' : N.Bisim O S) : M.Bisim O fun s u => ∃ t, N.Reach t ∧ R s t ∧ S t u where
  init := ⟨N.init, .init, h.init, h'.init⟩
  step := by
    rintro s u e hs hu ⟨t, ht, hst, htu⟩
    rcases rel_cases (h.step s t e hs ht hst) with ⟨hM, hN⟩ | ⟨s', t', hM, hN, hst'⟩ <;>
      rcases rel_cases (h'.step t u e ht hu htu) with ⟨hN', hO⟩ | ⟨t'', u', hN', hO, htu'⟩ <;>
      rw [hN] at hN' <;> cases hN' <;> rw [hM, hO]
    · exact .none
    · exact .some ⟨t', ht.step hN, hst', htu'⟩

end Bisim

/-- `f` is moved by the events that `vis` shows as by the system `L`; the hidden ones are always
possible, and leave it alone. -/
structure Projection (M : Sys σ ε) (L : Sys τ ε') (f : σ → τ) (vis : ε → Option ε') : Prop where
  cache : ∀ s e, vis e = none → (M.step s e).map f = some (f s)
  montre : ∀ s e e', vis e = some e' → (M.step s e).map f = L.step (f s) e'

/-- **A component of a larger system.** -/
theorem Reach.map {L : Sys τ ε'} {f : σ → τ} {s : σ} (hs : M.Reach s) (h0 : L.Reach (f M.init))
    (hstep : ∀ s e s', M.step s e = some s' → f s' = f s ∨ ∃ e', L.step (f s) e' = some (f s')) :
    L.Reach (f s) := by
  refine hs.inv (I := fun s => L.Reach (f s)) h0 (fun t e t' _ hf h => ?_)
  rcases hstep t e t' h with heq | ⟨e', he⟩
  · exact heq ▸ hf
  · exact hf.step he

end Sys
