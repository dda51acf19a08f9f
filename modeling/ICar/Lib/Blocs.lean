import ICar.Lib.Simulation

/-!
# A loop that reads blocks

A program runs one loop. When elements wait in its queue, it reads a block of `n` into an array,
waiting for more until a timeout, and acts on the array; otherwise it acts without one. A block cut
short by the timeout leaves what the array held in its last places. The program may be any function
`loop` of the array and of its other inputs.

* `conserve`: blocks and queue are the elements received, in order.
* `entiers`: while no read is cut short, the blocks are the elements received, `n` by `n`,
  whenever they came.
* `inv_loop`: what every turn preserves holds in every state.
* `memoire`, `registre`: a value kept between turns, which only a block changes, is the fold over
  the blocks; a register that some blocks write holds what the last of them wrote.
* `bisim`: two programs whose turns keep a relation do the same, whatever comes and when.
* `accord`: two programs that act alike on the arrays of a run do the same over it.
-/

namespace Blocs

variable {α σ κ : Type*}

/-- One read: the elements taken from the queue, and what the array held before. -/
structure Lecture (α : Type*) where
  lu : List α
  pile : ℕ → α

/-- The array after the read. -/
def Lecture.tableau (l : Lecture α) (i : ℕ) : α := l.lu.getD i (l.pile i)

theorem Lecture.tableau_of_lt (l : Lecture α) {i : ℕ} (h : i < l.lu.length) : l.tableau i = l.lu[i] :=
  List.getD_eq_getElem _ _ h

structure Etat (α σ : Type*) where
  prog : σ
  attente : List α
  /-- History: the reads so far. -/
  lectures : List (Lecture α)

/-- The blocks read so far. -/
def Etat.blocs (s : Etat α σ) : List (List α) := s.lectures.map Lecture.lu

/-- What can happen next: an element comes, or the loop makes a turn with the inputs `c`. `pendant`
comes while the turn waits for its block. -/
inductive Ev (α κ : Type*)
  | arrive (a : α)
  | tour (pendant : List α) (pile : ℕ → α) (c : κ)

/-- A turn. -/
def Etat.tour (n : ℕ) (loop : Option (ℕ → α) → κ → σ → σ) (s : Etat α σ) (pendant : List α) (pile : ℕ → α)
    (c : κ) : Etat α σ :=
  match s.attente with
  | [] => { s with prog := loop none c s.prog, attente := pendant }
  | a :: l =>
    let file := a :: l ++ pendant
    let lecture : Lecture α := ⟨file.take n, pile⟩
    ⟨loop (some lecture.tableau) c s.prog, file.drop n, s.lectures ++ [lecture]⟩

/-- The program `loop` started in the state `init`. -/
def machine (n : ℕ) (init : σ) (loop : Option (ℕ → α) → κ → σ → σ) : Sys (Etat α σ) (Ev α κ) where
  init := ⟨init, [], []⟩
  step s e := match e with
    | .arrive a => some { s with attente := s.attente ++ [a] }
    | .tour pendant pile c => some (s.tour n loop pendant pile c)

/-- The elements that come with an event. -/
def Ev.recus : Ev α κ → List α
  | .arrive a => [a]
  | .tour pendant _ _ => pendant

/-- The elements received in a run. -/
def recus (es : List (Ev α κ)) : List α := es.flatMap Ev.recus

variable {n : ℕ} {init : σ} {loop : Option (ℕ → α) → κ → σ → σ} {s s' : Etat α σ} {es : List (Ev α κ)}

/-! ## One event -/

variable (n loop) in
/-- **A turn** acts without a block on an empty queue, and on a block otherwise. -/
theorem tour_cases (s : Etat α σ) (pendant : List α) (pile : ℕ → α) (c : κ) :
    (s.attente = [] ∧ s.tour n loop pendant pile c = ⟨loop none c s.prog, pendant, s.lectures⟩) ∨
    (s.attente ≠ [] ∧ s.tour n loop pendant pile c =
      ⟨loop (some (Lecture.tableau ⟨(s.attente ++ pendant).take n, pile⟩)) c s.prog, (s.attente ++ pendant).drop n,
        s.lectures ++ [⟨(s.attente ++ pendant).take n, pile⟩]⟩) := by
  obtain ⟨prog, attente, lectures⟩ := s
  cases attente with
  | nil => exact .inl ⟨rfl, rfl⟩
  | cons a l => exact .inr ⟨List.cons_ne_nil a l, rfl⟩

theorem step_cases {e : Ev α κ} (h : (machine n init loop).step s e = some s') :
    (∃ a, e = .arrive a ∧ s' = { s with attente := s.attente ++ [a] }) ∨
    ∃ pendant pile c, e = .tour pendant pile c ∧ s' = s.tour n loop pendant pile c := by
  cases e with
  | arrive a => exact .inl ⟨a, rfl, (Option.some.inj h).symm⟩
  | tour pendant pile c => exact .inr ⟨pendant, pile, c, rfl, (Option.some.inj h).symm⟩

/-- A turn takes its block from the head of the queue. -/
theorem tour_flatten (s : Etat α σ) (pendant : List α) (pile : ℕ → α) (c : κ) :
    (s.tour n loop pendant pile c).blocs.flatten ++ (s.tour n loop pendant pile c).attente =
      s.blocs.flatten ++ s.attente ++ pendant := by
  rcases tour_cases n loop s pendant pile c with ⟨ha, ht⟩ | ⟨-, ht⟩ <;> rw [ht]
  · rw [ha, List.append_nil]
    rfl
  · simp only [Etat.blocs, List.map_append, List.map_cons, List.map_nil, List.flatten_append, List.flatten_singleton,
      List.append_assoc]
    rw [List.take_append_drop]

/-- The reads only grow. -/
theorem lectures_step {e : Ev α κ} (h : (machine n init loop).step s e = some s') : s.lectures <+: s'.lectures := by
  rcases step_cases h with ⟨a, -, rfl⟩ | ⟨pendant, pile, c, -, rfl⟩
  · exact List.prefix_rfl
  · rcases tour_cases n loop s pendant pile c with ⟨-, ht⟩ | ⟨-, ht⟩ <;> rw [ht]
    exact List.prefix_append _ _

/-! ## Runs -/

/-- **Nothing is lost, duplicated or reordered**: blocks and queue are the elements received. -/
theorem conserve (h : (machine n init loop).run (machine n init loop).init es = some s) :
    s.blocs.flatten ++ s.attente = recus es := by
  have hrun := Sys.run_foldl (M := machine n init loop) (f := fun s => s.blocs.flatten ++ s.attente)
    (g := fun q e => q ++ e.recus) (I := fun _ => True) (fun _ _ _ _ _ => trivial) (fun t e t' _ hstep => ?_) trivial h
  · rw [hrun]
    unfold recus
    rw [List.flatMap_eq_foldl]
    rfl
  · rcases step_cases hstep with ⟨a, rfl, rfl⟩ | ⟨pendant, pile, c, rfl, rfl⟩
    · exact (List.append_assoc ..).symm
    · exact tour_flatten t pendant pile c

/-- A list of pieces of length `n`, in the list they make. -/
theorem getElem_flatten {ls : List (List α)} (h : ∀ l ∈ ls, l.length = n) {i : ℕ} (hi : i < ls.length) (xs : List α) :
    ls[i] = ((ls.flatten ++ xs).drop (n * i)).take n := by
  induction ls generalizing i with
  | nil => exact absurd hi (Nat.not_lt_zero i)
  | cons l ls ih =>
    obtain ⟨hl, hls⟩ := List.forall_mem_cons.1 h
    rw [List.flatten_cons, List.append_assoc]
    cases i with
    | zero =>
      rw [Nat.mul_zero, List.drop_zero]
      exact (List.take_left' hl).symm
    | succ i =>
      have hdrop : (l ++ (ls.flatten ++ xs)).drop (n * (i + 1)) = (ls.flatten ++ xs).drop (n * i) := by
        rw [Nat.mul_succ, Nat.add_comm, ← List.drop_drop, List.drop_left' hl]
      rw [hdrop]
      exact ih hls (Nat.lt_of_succ_lt_succ hi)

/-- **Whole blocks do not depend on time**: the elements received, `n` by `n`. -/
theorem entiers (h : (machine n init loop).run (machine n init loop).init es = some s)
    (hs : ∀ l ∈ s.blocs, l.length = n) {i : ℕ} (hi : i < s.blocs.length) :
    s.blocs[i] = ((recus es).drop (n * i)).take n := by
  rw [← conserve h]
  exact getElem_flatten hs hi s.attente

/-- The array of a whole block, in the elements received. -/
theorem tableau_recus (h : (machine n init loop).run (machine n init loop).init es = some s)
    (hs : ∀ l ∈ s.blocs, l.length = n) {i j : ℕ} (hi : i < s.lectures.length) (hj : j < n) :
    (recus es)[n * i + j]? = some (s.lectures[i].tableau j) := by
  have hi' : i < s.blocs.length := by rw [Etat.blocs, List.length_map]; exact hi
  have hlu : s.blocs[i] = s.lectures[i].lu := List.getElem_map ..
  have hlen : j < s.lectures[i].lu.length := by rw [← hlu, hs _ (List.getElem_mem hi')]; exact hj
  have hbloc := entiers h hs hi'
  rw [hlu] at hbloc
  rw [Lecture.tableau_of_lt _ hlen, ← List.getElem?_eq_getElem hlen, hbloc, List.getElem?_take_of_lt hj,
    List.getElem?_drop]

/-- **Invariants of the program**, from its first state and one turn. -/
theorem inv_loop {I : σ → Prop} (h0 : I init) (hloop : ∀ lu c p, I p → I (loop lu c p))
    (h : (machine n init loop).Reach s) : I s.prog := by
  refine h.inv (I := fun s => I s.prog) h0 (fun t e t' _ ht hstep => ?_)
  rcases step_cases hstep with ⟨a, -, rfl⟩ | ⟨pendant, pile, c, -, rfl⟩
  · exact ht
  · rcases tour_cases n loop t pendant pile c with ⟨-, heq⟩ | ⟨-, heq⟩ <;> rw [heq]
    · exact hloop none c t.prog ht
    · exact hloop _ c t.prog ht

/-- **What only a block changes** is the fold over the blocks. -/
theorem memoire {τ : Type*} {f : σ → τ} {g : τ → (ℕ → α) → τ} (hnone : ∀ c p, f (loop none c p) = f p)
    (hsome : ∀ b c p, f (loop (some b) c p) = g (f p) b) (h : (machine n init loop).Reach s) :
    f s.prog = (s.lectures.map Lecture.tableau).foldl g (f init) := by
  refine h.inv (I := fun s => f s.prog = (s.lectures.map Lecture.tableau).foldl g (f init)) rfl
    (fun t e t' _ ht hstep => ?_)
  rcases step_cases hstep with ⟨a, -, rfl⟩ | ⟨pendant, pile, c, -, rfl⟩
  · exact ht
  · rcases tour_cases n loop t pendant pile c with ⟨-, heq⟩ | ⟨-, heq⟩ <;> rw [heq]
    · exact (hnone c t.prog).trans ht
    · dsimp only
      rw [hsome, ht, List.map_append, List.foldl_append]
      rfl

/-- **A register** that some blocks write holds what the last of them wrote. -/
theorem registre {τ : Type*} {f : σ → τ} {g : (ℕ → α) → Option τ} (hnone : ∀ c p, f (loop none c p) = f p)
    (hsome : ∀ b c p, f (loop (some b) c p) = (g b).getD (f p)) (h : (machine n init loop).Reach s) :
    f s.prog = (s.lectures.reverse.findSome? fun l => g l.tableau).getD (f init) := by
  have hfold := foldl_registre (o := fun x (l : Lecture α) => (g l.tableau).getD x) (f := id) (w := fun l => g l.tableau)
    (e := fun v _ => v) (fun _ _ _ => rfl) (l := s.lectures) (fun l _ x => by cases g l.tableau <;> rfl) (f init)
  rw [memoire (g := fun x b => (g b).getD x) hnone hsome h, List.foldl_map]
  refine hfold.trans ?_
  cases s.lectures.reverse.findSome? fun l => g l.tableau <;> rfl

/-- **Two programs that keep a relation, turn by turn**, keep it in every run. -/
theorem bisim {τ : Type*} {init' : τ} {loop' : Option (ℕ → α) → κ → τ → τ} {R : σ → τ → Prop} (h0 : R init init')
    (hloop : ∀ lu c p q, R p q → R (loop lu c p) (loop' lu c q)) :
    (machine n init loop).Bisim (machine n init' loop')
      fun s t => R s.prog t.prog ∧ s.attente = t.attente ∧ s.lectures = t.lectures where
  init := ⟨h0, rfl, rfl⟩
  step s t e _ _ h := by
    obtain ⟨p, attente, lectures⟩ := s
    obtain ⟨q, attente', lectures'⟩ := t
    obtain ⟨hR, rfl, rfl⟩ := h
    cases e with
    | arrive a => exact .some ⟨hR, rfl, rfl⟩
    | tour pendant pile c =>
      cases attente with
      | nil => exact .some ⟨hloop none c p q hR, rfl, rfl⟩
      | cons a l => exact .some ⟨hloop _ c p q hR, rfl, rfl⟩

/-- **Two programs that act alike on the arrays of a run** do the same over it. -/
theorem accord {loop' : Option (ℕ → α) → κ → σ → σ} {I : σ → Prop} {P : (ℕ → α) → Prop} (h0 : I init)
    (hloop : ∀ lu c p, (∀ b ∈ lu, P b) → I p → I (loop lu c p) ∧ loop' lu c p = loop lu c p)
    (h : (machine n init loop).run (machine n init loop).init es = some s) (hs : ∀ l ∈ s.lectures, P l.tableau) :
    (machine n init loop').run (machine n init loop').init es = some s ∧ I s.prog := by
  induction es using List.reverseRecOn generalizing s with
  | nil =>
    cases h
    exact ⟨rfl, h0⟩
  | append_singleton es e ih =>
    obtain ⟨t, ht, hstep⟩ := Sys.run_append_some.1 h
    rw [Sys.run_cons, Option.bind_eq_some_iff] at hstep
    obtain ⟨u, hstep, hu⟩ := hstep
    cases hu
    obtain ⟨hrun, hI⟩ := ih ht fun l hl => hs l ((lectures_step hstep).subset hl)
    have hkey : (machine n init loop').step t e = some s ∧ I s.prog := by
      rcases step_cases hstep with ⟨a, rfl, rfl⟩ | ⟨pendant, pile, c, rfl, rfl⟩
      · exact ⟨rfl, hI⟩
      · obtain ⟨prog, attente, lectures⟩ := t
        cases attente with
        | nil =>
          obtain ⟨hI', heq⟩ := hloop none c prog (fun b hb => nomatch hb) hI
          refine ⟨?_, hI'⟩
          show some (Etat.mk (loop' none c prog) _ _) = _
          rw [heq]
          rfl
        | cons a l =>
          have hP : P (Lecture.tableau ⟨(a :: l ++ pendant).take n, pile⟩) := hs _ (List.mem_append_right _ (by simp))
          obtain ⟨hI', heq⟩ := hloop (some _) c prog (fun b hb => Option.mem_some.1 hb ▸ hP) hI
          refine ⟨?_, hI'⟩
          show some (Etat.mk (loop' (some _) c prog) _ _) = _
          rw [heq]
          rfl
    exact ⟨Sys.run_append_some.2 ⟨t, hrun, by rw [Sys.run_cons, hkey.1]; rfl⟩, hkey.2⟩

end Blocs
