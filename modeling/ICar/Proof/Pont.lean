import ICar.Spec.Pont

/-!
# The bridge between the socket and the serial port

`tour_cases` says what one iteration does; from it, over any results of `recv`:

* `actif_iff`: `main` still runs exactly when no piece began with the stop header.
* `appels_entiers`: over whole pieces, the calls are the pieces.
* `redit`: a `recv` that delivers nothing makes `main` send its buffer again.
* `fin_iff`: the bridge is silent after the end of the connection exactly when it had
  returned before it.
-/

namespace ICar

variable {p : Pont} {r : Recv} {rs : List Recv}

/-! ## One iteration -/

/-- The piece begins with the stop header. -/
def Recv.Stop (r : Recv) : Prop := r.octets.head? = some (car 'S')

instance (r : Recv) : Decidable r.Stop := by unfold Recv.Stop; infer_instance

theorem remplit_fst {buff : Int8 × Int8} (h : buff.1 ≠ car 'S') :
    (r.remplit buff).1 = car 'S' ↔ r.Stop := by
  cases r <;> simp [Recv.remplit, Recv.Stop, Recv.octets, h]

/-- **What an iteration does** while `main` runs: it returns on a piece that begins with
the stop header, and otherwise makes one call. -/
theorem tour_cases (h : p.actif = true) :
    (r.Stop ∧ (p.tour r).actif = false ∧ (p.tour r).appels = p.appels) ∨
    (¬ r.Stop ∧ (p.tour r).actif = true ∧ (p.tour r).buff = r.remplit p.buff ∧
      (p.tour r).appels = p.appels ++ [((r.remplit p.buff).1.toInt, (r.remplit p.buff).2.toInt)]) := by
  unfold Pont.tour
  rw [if_pos h]
  dsimp only
  by_cases hS : (r.remplit p.buff).1 = car 'S'
  · rw [dif_pos hS]
    exact .inl ⟨(remplit_fst (p.sain h)).1 hS, rfl, rfl⟩
  · rw [dif_neg hS]
    exact .inr ⟨fun hr => hS ((remplit_fst (p.sain h)).2 hr), h, rfl, rfl⟩

theorem tour_inactif (h : p.actif = false) : p.tour r = p := by
  unfold Pont.tour; rw [h]; rfl

theorem main_concat (rs : List Recv) (r : Recv) : Pont.main (rs ++ [r]) = (Pont.main rs).tour r := by
  simp [Pont.main, List.foldl_append]

/-! ## Runs -/

/-- Once `main` has returned, nothing more happens. -/
theorem main_append_inactif (h : (Pont.main rs).actif = false) (qs : List Recv) :
    Pont.main (rs ++ qs) = Pont.main rs := by
  induction qs using List.reverseRecOn with
  | nil => rw [List.append_nil]
  | append_singleton qs q ih => rw [← List.append_assoc, main_concat, ih, tour_inactif h]

/-- **`main` still runs exactly when no piece began with the stop header.** -/
theorem actif_iff : ∀ {rs : List Recv}, (Pont.main rs).actif = true ↔ ∀ r ∈ rs, ¬ r.Stop := by
  intro rs
  induction rs using List.reverseRecOn with
  | nil => simp [Pont.main]
  | append_singleton rs r ih =>
    rw [main_concat]
    cases ha : (Pont.main rs).actif with
    | false =>
      rw [tour_inactif ha, ha]
      have hne : ¬ ∀ r ∈ rs, ¬ r.Stop := fun h => by rw [← ih, ha] at h; cases h
      constructor
      · intro h; cases h
      · intro h; exact absurd (fun q hq => h q (List.mem_append_left _ hq)) hne
    | true =>
      have hrs := ih.1 ha
      rcases tour_cases (r := r) ha with ⟨hr, h1, -⟩ | ⟨hr, h1, -⟩
      · rw [h1]
        constructor
        · intro h; cases h
        · intro h; exact absurd hr (h r (by simp))
      · rw [h1]
        refine ⟨fun _ q hq => ?_, fun _ => rfl⟩
        rcases List.mem_append.1 hq with hq | hq
        · exact hrs q hq
        · rw [List.mem_singleton.1 hq]; exact hr

theorem actif_of_append {qs : List Recv} (h : (Pont.main (rs ++ qs)).actif = true) :
    (Pont.main rs).actif = true :=
  actif_iff.2 fun q hq => actif_iff.1 h q (List.mem_append_left _ hq)

/-- One call per iteration while `main` runs. -/
theorem length_appels : ∀ {rs : List Recv}, (Pont.main rs).actif = true →
    (Pont.main rs).appels.length = rs.length := by
  intro rs
  induction rs using List.reverseRecOn with
  | nil => intro _; rfl
  | append_singleton rs r ih =>
    intro h
    have hrs := actif_of_append h
    rw [main_concat] at h ⊢
    rcases tour_cases (r := r) hrs with ⟨-, h1, -⟩ | ⟨-, -, -, h1⟩
    · rw [h1] at h; cases h
    · rw [h1, List.length_append, ih hrs]; simp

/-- The command of a whole piece. -/
def Recv.commande : Recv → Option (ℤ × ℤ)
  | deux a b => some (a.toInt, b.toInt)
  | _ => none

/-- A whole piece is passed on as it is. -/
theorem appels_deux (h : (Pont.main (rs ++ [r])).actif = true) (hr : r.octets.length = 2) :
    (Pont.main (rs ++ [r])).appels = (Pont.main rs).appels ++ r.commande.toList := by
  have hrs := actif_of_append h
  rw [main_concat] at h ⊢
  rcases tour_cases (r := r) hrs with ⟨-, h1, -⟩ | ⟨-, -, -, h1⟩
  · rw [h1] at h; cases h
  · rw [h1]
    cases r with
    | deux a b => rfl
    | un a => simp [Recv.octets] at hr
    | ferme => simp [Recv.octets] at hr
    | erreur => simp [Recv.octets] at hr

/-- Over whole pieces, the calls are the pieces. -/
theorem appels_entiers : ∀ {rs : List Recv}, (Pont.main rs).actif = true →
    (∀ r ∈ rs, r.octets.length = 2) → (Pont.main rs).appels = rs.filterMap Recv.commande := by
  intro rs
  induction rs using List.reverseRecOn with
  | nil => intro _ _; rfl
  | append_singleton rs r ih =>
    intro h h2
    have hrs := actif_of_append h
    rw [appels_deux h (h2 r (by simp)), ih hrs fun q hq => h2 q (List.mem_append_left _ hq),
      List.filterMap_append]
    cases hc : r.commande <;> simp [hc]

/-- `main` works through a prefix, and what follows is nothing or begins with a stop. -/
theorem main_split (rs : List Recv) : ∃ pre post, rs = pre ++ post ∧ (Pont.main pre).actif = true ∧
    (Pont.main rs).appels = (Pont.main pre).appels := by
  induction rs using List.reverseRecOn with
  | nil => exact ⟨[], [], rfl, rfl, rfl⟩
  | append_singleton rs r ih =>
    cases ha : (Pont.main rs).actif with
    | false =>
      obtain ⟨pre, post, rfl, hpre, happ⟩ := ih
      refine ⟨pre, post ++ [r], by simp, hpre, ?_⟩
      rw [main_append_inactif ha, happ]
    | true =>
      rcases tour_cases (r := r) ha with ⟨-, -, h1⟩ | ⟨-, h1, -⟩
      · exact ⟨rs, [r], rfl, ha, by rw [main_concat, h1]⟩
      · exact ⟨rs ++ [r], [], by simp, by rw [main_concat]; exact h1, rfl⟩

/-! ## The end of the connection -/

/-- From the first call of `recv` that delivers nothing on, `main` calls nothing more and
has left its loop. -/
def RienApresFin (rs : List Recv) : Prop :=
  ∀ pre r post, rs = pre ++ r :: post → (∀ q ∈ pre, q.octets ≠ []) → r.octets = [] →
    (Pont.main rs).appels = (Pont.main pre).appels ∧ (Pont.main (pre ++ [r])).actif = false

/-- A piece that begins with the stop header came before the first call of `recv` that
delivers nothing. -/
def StopAvantFin (rs : List Recv) : Prop :=
  ∀ pre r post, rs = pre ++ r :: post → (∀ q ∈ pre, q.octets ≠ []) → r.octets = [] → ∃ q ∈ pre, q.Stop

/-- A call of `recv` that delivers nothing makes `main` send its buffer again. -/
theorem redit (h : (Pont.main rs).actif = true) (hr : r.octets = []) (n : ℕ) :
    (Pont.main (rs ++ List.replicate n r)).actif = true ∧
      (Pont.main (rs ++ List.replicate n r)).appels = (Pont.main rs).appels ++
        List.replicate n ((Pont.main rs).buff.1.toInt, (Pont.main rs).buff.2.toInt) ∧
      (Pont.main (rs ++ List.replicate n r)).buff = (Pont.main rs).buff := by
  have hfill : ∀ b, r.remplit b = b := by
    intro b
    cases r with
    | un a => simp [Recv.octets] at hr
    | deux a b => simp [Recv.octets] at hr
    | ferme => rfl
    | erreur => rfl
  have hns : ¬ r.Stop := by unfold Recv.Stop; rw [hr]; simp
  induction n with
  | zero => simp [h]
  | succ n ih =>
    obtain ⟨h1, h2, h3⟩ := ih
    rw [List.replicate_succ', ← List.append_assoc, main_concat]
    rcases tour_cases (r := r) h1 with ⟨hs, -⟩ | ⟨-, ha, hb, hc⟩
    · exact absurd hs hns
    · refine ⟨ha, ?_, by rw [hb, hfill, h3]⟩
      rw [hc, hfill, h2, h3, List.replicate_succ', List.append_assoc]

/-- The first call of `recv` that delivers nothing. -/
theorem premier_vide : ∀ {rs : List Recv} {q : Recv}, q ∈ rs → q.octets = [] →
    ∃ pre r post, rs = pre ++ r :: post ∧ (∀ q ∈ pre, q.octets ≠ []) ∧ r.octets = [] := by
  intro rs
  induction rs with
  | nil => intro q hq; cases hq
  | cons r rs ih =>
    intro q hq hqe
    by_cases hr : r.octets = []
    · exact ⟨[], r, rs, rfl, by simp, hr⟩
    · have hqr : q ∈ rs := by
        rcases List.mem_cons.1 hq with rfl | hq
        · exact absurd hqe hr
        · exact hq
      obtain ⟨pre, x, post, rfl, hpre, hx⟩ := ih hqr hqe
      refine ⟨r :: pre, x, post, rfl, ?_, hx⟩
      intro y hy
      rcases List.mem_cons.1 hy with rfl | hy
      · exact hr
      · exact hpre y hy

/-- If a stop always comes before a failing `recv`, a bridge that still runs has met no
failing `recv`. -/
theorem sans_fin (h : StopAvantFin rs) (ha : (Pont.main rs).actif = true) : ∀ q ∈ rs, q.octets ≠ [] := by
  intro q hq hqe
  obtain ⟨pre, r, post, rfl, hpre, hr⟩ := premier_vide hq hqe
  obtain ⟨x, hx, hxs⟩ := h pre r post rfl hpre hr
  exact actif_iff.1 ha x (List.mem_append_left _ hx) hxs

/-- **When the bridge is silent after the end of the connection.** Exactly when it had
returned before; and then, if no command was cut, no command is sent more often than it
came. -/
theorem fin_iff (rs : List Recv) :
    (RienApresFin rs ↔ StopAvantFin rs) ∧
    (StopAvantFin rs → (∀ r ∈ rs, r.octets.length ≠ 1) →
      ∀ c, (Pont.main rs).appels.count c ≤ (rs.filterMap Recv.commande).count c) := by
  refine ⟨⟨fun h pre r post hrs hpre hr => ?_, fun h pre r post hrs hpre hr => ?_⟩, fun h h1 c => ?_⟩
  · -- had `main` not returned, the failing call would be followed by another one
    by_contra hno
    push Not at hno
    have ha := actif_iff.2 hno
    have := (redit ha hr 1).1
    rw [List.replicate_one, (h pre r post hrs hpre hr).2] at this
    cases this
  · obtain ⟨q, hq, hs⟩ := h pre r post hrs hpre hr
    have hina : (Pont.main pre).actif = false := by
      cases ha : (Pont.main pre).actif with
      | false => rfl
      | true => exact absurd hs (actif_iff.1 ha q hq)
    rw [hrs, main_append_inactif hina, main_append_inactif hina]
    exact ⟨rfl, hina⟩
  · obtain ⟨pre, post, rfl, ha, happ⟩ := main_split rs
    have hpre : StopAvantFin pre := by
      intro a r b hab
      exact h a r (b ++ post) (by rw [hab]; simp)
    have h2 : ∀ r ∈ pre, r.octets.length = 2 := by
      intro r hr
      have hne := sans_fin hpre ha r hr
      have hn1 := h1 r (List.mem_append_left _ hr)
      cases r <;> simp_all [Recv.octets]
    rw [happ, appels_entiers ha h2, List.filterMap_append]
    exact (List.sublist_append_left _ _).count_le c

/-- After a stop, the end of the connection is quiet. -/
theorem fin_iff_apres_stop :
    let rs : List Recv := [.deux 1 50, .deux (car 'S') 0, .ferme]
    RienApresFin rs ∧ ∀ c, (Pont.main rs).appels.count c ≤ (rs.filterMap Recv.commande).count c := by
  intro rs
  have hstop : StopAvantFin rs := by
    intro pre r post hrs hpre hr
    rcases pre with _ | ⟨a, _ | ⟨b, pre⟩⟩
    · simp only [rs, List.nil_append, List.cons.injEq] at hrs
      rw [← hrs.1] at hr; cases hr
    · simp only [rs, List.cons_append, List.nil_append, List.cons.injEq] at hrs
      rw [← hrs.2.1] at hr; cases hr
    · simp only [rs, List.cons_append, List.cons.injEq] at hrs
      exact ⟨b, by simp, by rw [← hrs.2.1]; decide⟩
  exact ⟨(fin_iff rs).1.2 hstop, (fin_iff rs).2 hstop (by decide)⟩

/-- The connection is lost after one command: the command is sent again. -/
theorem fin_redit : ¬ RienApresFin [.deux 1 50, .ferme] := by
  intro h
  have := (h [.deux 1 50] .ferme [] rfl (by simp [Recv.octets]) rfl).2
  revert this
  decide

end ICar
