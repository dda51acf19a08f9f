import Mathlib

/-!
# Runs of a partial step function

A system is an initial state with a partial step: `step s e = none` means that
event `e` is not enabled in `s`. `run` performs a list of events, and fails at
the first one that is not enabled.

* `run_steps`, `run_inv`, `Reach.inv`: what every step preserves, every run preserves.
* `run_foldl`: a projection that every step updates as a function of the event
  alone is, after a run, the fold of that function over the run's events.
* `run_total`: what every step preserves while a measure of the step is added up, a run
  preserves with the `total` of the measure over its steps.
* `foldl_registre`: a part of the state that each operation overwrites or leaves alone holds what
  the last operation to write it wrote.
-/

/-- A deterministic labelled system with a partial step. -/
structure Sys (σ ε : Type*) where
  init : σ
  step : σ → ε → Option σ

namespace Sys

variable {σ ε τ : Type*} (M : Sys σ ε)

/-- Perform the events in order; `none` at the first one that is not enabled. -/
def run (s : σ) (es : List ε) : Option σ := es.foldlM M.step s

/-- A state that some run from the initial state ends in. -/
def Reach (s : σ) : Prop := ∃ es, M.run M.init es = some s

variable {M}

@[simp] theorem run_nil (s : σ) : M.run s [] = some s := rfl

@[simp] theorem run_cons (s : σ) (e : ε) (es : List ε) :
    M.run s (e :: es) = (M.step s e).bind fun t => M.run t es := by
  simp only [run, List.foldlM_cons]; rfl

theorem run_cons_some {s u : σ} {e : ε} {es : List ε} :
    M.run s (e :: es) = some u ↔ ∃ t, M.step s e = some t ∧ M.run t es = some u := by
  rw [run_cons, Option.bind_eq_some_iff]

theorem run_append (s : σ) (es fs : List ε) :
    M.run s (es ++ fs) = (M.run s es).bind fun t => M.run t fs := by
  simp only [run, List.foldlM_append]; rfl

theorem run_append_some {s u : σ} {es fs : List ε} :
    M.run s (es ++ fs) = some u ↔ ∃ t, M.run s es = some t ∧ M.run t fs = some u := by
  rw [run_append, Option.bind_eq_some_iff]

/-- **What every step of a run preserves, the run preserves.** The step may use where in
the run it stands. -/
theorem run_steps {I : σ → Prop} {s u : σ} : ∀ {es : List ε},
    (∀ es₁ e es₂ t t', es = es₁ ++ e :: es₂ → M.run s es₁ = some t → I t → M.step t e = some t' → I t') →
      I s → M.run s es = some u → I u := by
  intro es
  induction es generalizing s with
  | nil =>
    intro _ hs h
    simp only [run_nil, Option.some.injEq] at h
    exact h ▸ hs
  | cons e es ih =>
    intro hstep hs h
    obtain ⟨t, ht, h⟩ := run_cons_some.1 h
    refine ih (fun es₁ e' es₂ v v' hes hv => ?_) (hstep [] e es s t rfl rfl hs ht) h
    exact hstep (e :: es₁) e' es₂ v v' (by rw [hes]; rfl) (run_cons_some.2 ⟨t, ht, hv⟩)

/-- The rule when the step only uses that the event is one of the run's. -/
theorem run_inv {I : σ → Prop} {s u : σ} {es : List ε}
    (hstep : ∀ e ∈ es, ∀ t t', I t → M.step t e = some t' → I t') (hs : I s) (h : M.run s es = some u) :
    I u :=
  run_steps (fun _ e _ t t' hes _ => hstep e (by rw [hes]; simp) t t') hs h

theorem Reach.init : M.Reach M.init := ⟨[], rfl⟩

theorem Reach.run {s t : σ} {es : List ε} (hs : M.Reach s) (h : M.run s es = some t) : M.Reach t := by
  obtain ⟨fs, hfs⟩ := hs
  exact ⟨fs ++ es, run_append_some.2 ⟨s, hfs, h⟩⟩

theorem Reach.step {s t : σ} {e : ε} (hs : M.Reach s) (h : M.step s e = some t) : M.Reach t := by
  have h1 : M.run s [e] = some t := by simp [h]
  exact hs.run h1

/-- **Invariants of reachable states**, from the initial state and one step. The step may
use that the state it starts from is reachable, so invariants can build on one another. -/
theorem Reach.inv {I : σ → Prop} (h0 : I M.init)
    (hstep : ∀ t e t', M.Reach t → I t → M.step t e = some t' → I t') {s : σ} (hs : M.Reach s) : I s := by
  obtain ⟨es, hes⟩ := hs
  exact run_steps (fun es₁ e _ t t' _ ht => hstep t e t' ⟨es₁, ht⟩) h0 hes

/-- **A projection of the state as a fold over the events.** -/
theorem run_foldl {f : σ → τ} {g : τ → ε → τ} {I : σ → Prop}
    (hI : ∀ t e t', I t → M.step t e = some t' → I t')
    (hstep : ∀ t e t', I t → M.step t e = some t' → f t' = g (f t) e) {s u : σ} : ∀ {es : List ε},
    I s → M.run s es = some u → f u = es.foldl g (f s) := by
  intro es
  induction es generalizing s with
  | nil => intro _ h; simp only [run_nil, Option.some.injEq] at h; rw [h]; rfl
  | cons e es ih =>
    intro hs h
    obtain ⟨t, ht, h⟩ := run_cons_some.1 h
    rw [List.foldl_cons, ← hstep _ _ _ hs ht]
    exact ih (hI _ _ _ hs ht) h

/-! ## A measure over the steps of a run -/

variable {α : Type*} [AddMonoid α] {g : σ → ε → α}

variable (M) in
/-- The sum over the steps of a run of a measure of the state and the event. -/
def total (g : σ → ε → α) : σ → List ε → α
  | _, [] => 0
  | s, e :: es => g s e + (M.step s e).elim 0 fun t => total g t es

@[simp] theorem total_nil (s : σ) : M.total g s [] = 0 := rfl

theorem total_cons {s t : σ} {e : ε} (es : List ε) (h : M.step s e = some t) :
    M.total g s (e :: es) = g s e + M.total g t es := by
  simp only [total, h, Option.elim_some]

/-- Two measures at once. -/
theorem total_prod {β : Type*} [AddMonoid β] (h : σ → ε → β) (s : σ) (es : List ε) :
    M.total (fun t e => (g t e, h t e)) s es = (M.total g s es, M.total h s es) := by
  induction es generalizing s with
  | nil => rfl
  | cons e es ih =>
    simp only [total]
    cases M.step s e with
    | none => rfl
    | some t => rw [Option.elim_some, Option.elim_some, Option.elim_some, ih, Prod.mk_add_mk]

/-- **What every step preserves while it adds its measure, a run preserves with the total.** -/
theorem run_total {P : σ → α → Prop} {s u : σ} {a : α} : ∀ {es : List ε},
    (∀ t b e t', P t b → M.step t e = some t' → P t' (b + g t e)) → P s a → M.run s es = some u →
      P u (a + M.total g s es) := by
  intro es
  induction es generalizing s a with
  | nil =>
    intro _ hs h
    simp only [run_nil, Option.some.injEq] at h
    rw [total_nil, add_zero]
    exact h ▸ hs
  | cons e es ih =>
    intro hstep hs h
    obtain ⟨t, ht, h⟩ := run_cons_some.1 h
    rw [total_cons _ ht, ← add_assoc]
    exact ih hstep (hstep _ _ _ _ hs ht) h

end Sys

/-! ## Registers -/

/-- **The last write stays.** A part `f` of the state that each operation of a list overwrites, with what
`w` says, or leaves alone. -/
theorem foldl_registre {σ τ α β : Type*} {o : σ → α → σ} {f : σ → τ} {w : α → Option β} {e : β → τ → τ}
    (he : ∀ u v x, e v (e u x) = e v x) {l : List α}
    (ho : ∀ a ∈ l, ∀ s, f (o s a) = (w a).elim (f s) fun v => e v (f s)) (s : σ) :
    f (l.foldl o s) = (l.reverse.findSome? w).elim (f s) fun v => e v (f s) := by
  induction l using List.reverseRecOn with
  | nil => rfl
  | append_singleton l a ih =>
    have hl := ih fun b hb => ho b (List.mem_append_left _ hb)
    rw [List.foldl_append, List.foldl_cons, List.foldl_nil, ho a (by simp), hl, List.reverse_concat, List.findSome?_cons]
    cases w a with
    | none => rfl
    | some v =>
      -- the earlier writes are overwritten
      cases l.reverse.findSome? w with
      | none => rfl
      | some u => exact he u v (f s)
