import ICar.Proof.Ordres

/-!
# The integral of the steering error

`direction::asservissement` adds every error to a sixteen-bit `erreur_sommeP`, and nothing
bounds or resets it. Modulo 2^16 it is the exact sum of the errors of a run
(`somme_modEq`), so it is that sum exactly as long as the sum itself fits
(`integrale_iff`): always up to 27 calls, and not after 66 interrupts at the start-up order.

The orders that a run can give the steering are in `OrdreDirection`.
-/

namespace ICar

open FixedWidth

variable {mcu : Mcu} {m m' : Machine} {es : List Ev} {v : Int16}

/-! ## The orders of a run -/

/-- The steering orders that messages and start-up can give: 500 at start-up, and the scaled
values of a signed character, with the 50 of `arret()` among them. -/
def OrdreDirection (v : Int16) : Prop := v = 500 ∨ (-152 ≤ v.toInt ∧ v.toInt ≤ 280)

theorem ordreDirection_echelle (c : Int8) : OrdreDirection (echelle c) := by
  have h : ∀ n : BitVec 8, -152 ≤ (echelle (Int8.ofBitVec n)).toInt ∧ (echelle (Int8.ofBitVec n)).toInt ≤ 280 := by
    decide +kernel
  exact .inr (h c.toBitVec)

/-- A message only gives such orders. -/
theorem ordreDirection_of_mem {t : List Int8}
    (h : .dirCommande v ∈ parseMessage t ∨ .commandeDirection v ∈ parseMessage t) : OrdreDirection v := by
  have h50 : OrdreDirection 50 := .inr (by decide)
  unfold parseMessage at h
  rw [branche_eq] at h
  cases ho : ordre t with
  | direction b =>
    have hv : v = echelle b := by simpa [ho, Ordre.stmts] using h
    exact hv ▸ ordreDirection_echelle b
  | frein b => simp [ho, Ordre.stmts] at h
  | variateur b => simp [ho, Ordre.stmts] at h
  | repos => simp [ho, Ordre.stmts] at h
  | arret =>
    have hv : v = 50 := by simpa [ho, Ordre.stmts, arret] using h
    exact hv ▸ h50
  | defaut =>
    have hv : v = 50 := by simpa [ho, Ordre.stmts, arret] using h
    exact hv ▸ h50

theorem ordreDirection_stored (hm : (machine mcu).Reach m) : OrdreDirection m.sketch.commandeDirection := by
  refine ordres_inv (P := fun o => OrdreDirection o.direction) (.inl rfl) (fun t i hi o ho => ?_) hm
  cases i with
  | commandeDirection v => exact ordreDirection_of_mem (.inr hi)
  | _ => exact ho

/-! ## The accumulator -/

/-- The error that `direction::asservissement` works on. -/
def Direction.erreur (v : Int16) (p : Adc) : Int16 := -1 * (p.toInt16 - v)

/-- The call of `direction::commande` that an event makes: the order and the reading. -/
def Machine.appelDir (m : Machine) : Ev → Option (Int16 × Adc)
  | .octet _ => none
  | .stmt c => match m.reste.head? with
    | some (.dirCommande v) => some (v, c.potar)
    | _ => none
  | .tick c => some (m.sketch.commandeDirection, c.potar)

/-- The exact error of a call, order minus reading. -/
def ecart (a : Int16 × Adc) : ℤ := a.1.toInt - a.2.val

theorem exec_dir (c : Sensors) (i : Stmt) (s : Sketch) : (i.exec c s).dir =
    match i with
    | .dirCommande v => (s.dir.asservissement v c.potar.toInt16).2
    | _ => s.dir := by
  cases i <;> rfl

theorem isr_dir (c : Sensors) (s : Sketch) :
    (s.isr c).dir = (s.dir.asservissement s.commandeDirection c.potar.toInt16).2 := by
  unfold Sketch.isr Sketch.varCommande Sketch.dirCommande Sketch.frCommande Direction.commande
  rfl

/-- **One event, one call**: the accumulators after it. -/
theorem step_dir {e : Ev} (h : (machine mcu).step m e = some m') : m'.sketch.dir =
    match m.appelDir e with
    | some (v, p) => (m.sketch.dir.asservissement v p.toInt16).2
    | none => m.sketch.dir := by
  rcases step_cases h with ⟨b, rfl, -, rfl⟩ | ⟨c, i, l, rfl, hr, rfl⟩ | ⟨c, rfl, rfl⟩
  · unfold Machine.octet
    split <;> rfl
  · rw [exec_dir]
    unfold Machine.appelDir
    rw [hr]
    cases i <;> rfl
  · exact isr_dir c m.sketch

/-- The order of a call is one of those of a run. -/
theorem ordreDirection_appel (hm : (machine mcu).Reach m) {e : Ev} (h : (machine mcu).step m e = some m')
    {a : Int16 × Adc} (ha : m.appelDir e = some a) : OrdreDirection a.1 := by
  rcases step_cases h with ⟨b, rfl, -, -⟩ | ⟨c, i, l, rfl, hr, -⟩ | ⟨c, rfl, -⟩
  · cases ha
  · unfold Machine.appelDir at ha
    rw [hr] at ha
    cases i with
    | dirCommande v =>
      cases ha
      exact ordreDirection_of_mem (.inl (mem_parseMessage hm hr))
    | _ => cases ha
  · cases ha
    exact ordreDirection_stored hm

theorem OrdreDirection.ecart_le (hv : OrdreDirection v) (p : Adc) :
    -1175 ≤ ecart (v, p) ∧ ecart (v, p) ≤ 500 := by
  have hp := p.isLt
  unfold ecart
  rcases hv with rfl | hv
  · have h500 : (500 : Int16).toInt = 500 := by decide
    simp only [h500]
    omega
  · simp only
    omega

/-- No error wraps for such an order. -/
theorem OrdreDirection.erreur (hv : OrdreDirection v) (p : Adc) :
    (Direction.erreur v p).toInt = ecart (v, p) := by
  have hb := hv.ecart_le p
  unfold ecart at hb ⊢
  simp only at hb ⊢
  have hsub : (p.toInt16 - v).toInt = p.val - v.toInt := by
    rw [toInt_sub, toInt_adc]
    rw [toInt_adc]
    unfold Fits
    omega
  unfold Direction.erreur
  rw [toInt_neg_one_mul] <;> rw [hsub]
  · omega
  · unfold Fits
    omega

/-! ## The sum over a run -/

def Machine.ecarts (m : Machine) (e : Ev) : ℤ := (m.appelDir e).elim 0 ecart

def Machine.appelsDir (m : Machine) (e : Ev) : ℕ := (m.appelDir e).elim 0 fun _ => 1

/-- The exact sum of the errors since start-up. -/
def sommeEcarts (mcu : Mcu) (es : List Ev) : ℤ := (machine mcu).total Machine.ecarts (machine mcu).init es

/-- The number of calls of `direction::commande` since start-up. -/
def nbAppelsDir (mcu : Mcu) (es : List Ev) : ℕ := (machine mcu).total Machine.appelsDir (machine mcu).init es

/-- **Modulo 2^16, the accumulator is the exact sum.** -/
theorem somme_modEq (h : (machine mcu).run (machine mcu).init es = some m) :
    m.sketch.dir.erreurSommeP.toInt ≡ sommeEcarts mcu es [ZMOD 2 ^ 16] := by
  -- reachability is carried along: it bounds the order of each call, so its error is exact
  have key := Sys.run_total (g := Machine.ecarts) (a := 0)
    (P := fun t b => (machine mcu).Reach t ∧ t.sketch.dir.erreurSommeP.toInt ≡ b [ZMOD 2 ^ 16])
    (fun t b e t' ht hstep => ?_) ⟨Sys.Reach.init, by cases mcu <;> rfl⟩ h
  · rw [zero_add] at key
    exact key.2
  obtain ⟨hreach, hsum⟩ := ht
  refine ⟨hreach.step hstep, ?_⟩
  rw [step_dir hstep]
  unfold Machine.ecarts
  cases ha : t.appelDir e with
  | none => simpa using hsum
  | some a =>
    obtain ⟨v, p⟩ := a
    have hv := ordreDirection_appel hreach hstep ha
    have herr : ((-1 : Int16) * (p.toInt16 - v)).toInt = ecart (v, p) := hv.erreur p
    calc (t.sketch.dir.erreurSommeP + -1 * (p.toInt16 - v)).toInt
        ≡ t.sketch.dir.erreurSommeP.toInt + (-1 * (p.toInt16 - v)).toInt [ZMOD 2 ^ 16] := toInt_add_modEq ..
      _ = t.sketch.dir.erreurSommeP.toInt + ecart (v, p) := by rw [herr]
      _ ≡ b + ecart (v, p) [ZMOD 2 ^ 16] := hsum.add_right _

/-- Every call adds at most 1175. -/
theorem sommeEcarts_le (h : (machine mcu).run (machine mcu).init es = some m) :
    |sommeEcarts mcu es| ≤ 1175 * nbAppelsDir mcu es := by
  have key := Sys.run_total (g := fun t e => (Machine.ecarts t e, Machine.appelsDir t e)) (a := (0, 0))
    (P := fun t b => (machine mcu).Reach t ∧ |b.1| ≤ 1175 * (b.2 : ℤ))
    (fun t b e t' ht hstep => ?_) ⟨Sys.Reach.init, by simp⟩ h
  · rw [Sys.total_prod, Prod.mk_add_mk, zero_add, zero_add] at key
    exact key.2
  obtain ⟨hreach, hsum⟩ := ht
  refine ⟨hreach.step hstep, ?_⟩
  unfold Machine.ecarts Machine.appelsDir
  cases ha : t.appelDir e with
  | none => simpa using hsum
  | some a =>
    obtain ⟨v, p⟩ := a
    have hv : OrdreDirection v := ordreDirection_appel hreach hstep ha
    have hb := hv.ecart_le p
    rw [abs_le] at hsum ⊢
    simp only [Option.elim_some, Prod.fst_add, Prod.snd_add]
    push_cast
    omega

/-! ## The accumulator against the sum -/

/-- The accumulator is the exact sum of the errors, and the integral term has its sign. -/
structure SommeExacte (dir : Direction) (somme : ℤ) : Prop where
  exacte : dir.erreurSommeP.toInt = somme
  signe : SignType.sign (Direction.gains.ki * dir.erreurSommeP.toInt) = SignType.sign (somme : ℚ)

theorem sommeExacte_iff {dir : Direction} {somme : ℤ} : SommeExacte dir somme ↔ dir.erreurSommeP.toInt = somme := by
  refine ⟨SommeExacte.exacte, fun h => ⟨h, ?_⟩⟩
  have hki : SignType.sign Direction.gains.ki = 1 := sign_pos (by norm_num [Direction.gains])
  rw [sign_mul, hki, one_mul, h]

/-- **When the steering integral has not wrapped.** In every state of every run, exactly when
the sum of the errors since start-up fits sixteen bits; so in every state up to 27 calls. -/
theorem integrale_iff (h : (machine mcu).run (machine mcu).init es = some m) :
    (SommeExacte m.sketch.dir (sommeEcarts mcu es) ↔ Fits (sommeEcarts mcu es)) ∧
    (nbAppelsDir mcu es ≤ 27 → SommeExacte m.sketch.dir (sommeEcarts mcu es)) := by
  have hmod := somme_modEq h
  have hlo := m.sketch.dir.erreurSommeP.le_toInt
  have hhi := m.sketch.dir.erreurSommeP.toInt_lt
  have hiff : SommeExacte m.sketch.dir (sommeEcarts mcu es) ↔ Fits (sommeEcarts mcu es) := by
    -- two sixteen-bit numbers that agree modulo 2^16 are equal
    rw [sommeExacte_iff]
    unfold Int.ModEq at hmod
    unfold Fits
    constructor
    · intro heq
      omega
    · intro hfit
      omega
  refine ⟨hiff, fun hn => hiff.2 ?_⟩
  -- 27 * 1175 is below 2^15
  have hle := abs_le.1 (sommeEcarts_le h)
  unfold Fits
  omega

/-! ## Interrupts from start-up on -/

/-- Interrupts only: every one is possible, and adds the same error. -/
theorem run_ticks (mcu : Mcu) (c : Sensors) (n : ℕ) : ∀ m : Machine, ∃ m',
    (machine mcu).run m (List.replicate n (.tick c)) = some m' ∧
    (machine mcu).total Machine.ecarts m (List.replicate n (.tick c)) =
      n * ecart (m.sketch.commandeDirection, c.potar) := by
  induction n with
  | zero => intro m; exact ⟨m, rfl, by simp⟩
  | succ n ih =>
    intro m
    have hstep : (machine mcu).step m (.tick c) = some { m with sketch := m.sketch.isr c } := rfl
    obtain ⟨m', hrun, htot⟩ := ih { m with sketch := m.sketch.isr c }
    have hord : (m.sketch.isr c).commandeDirection = m.sketch.commandeDirection :=
      congrArg Ordres.direction (isr_ordres c m.sketch)
    refine ⟨m', ?_, ?_⟩
    · rw [List.replicate_succ]
      exact Sys.run_cons_some.2 ⟨_, hstep, hrun⟩
    · rw [List.replicate_succ, Sys.total_cons _ hstep, htot]
      simp only [Machine.ecarts, Machine.appelDir, Option.elim_some, hord]
      push_cast
      ring

/-- Half a minute at the start-up order, the sensor at 0: the accumulator is still exact. -/
theorem integrale_65 : ∃ m, (machine .atmega328P).run (machine .atmega328P).init
      (List.replicate 65 (.tick ⟨0, 0⟩)) = some m ∧ SommeExacte m.sketch.dir 32500 := by
  obtain ⟨m, hrun, htot⟩ := run_ticks .atmega328P ⟨0, 0⟩ 65 (machine .atmega328P).init
  have hs : sommeEcarts .atmega328P (List.replicate 65 (.tick ⟨0, 0⟩)) = 32500 := htot
  refine ⟨m, hrun, ?_⟩
  rw [← hs]
  exact (integrale_iff hrun).1.2 (by rw [hs]; decide)

/-- One interrupt more, and the accumulator is negative. -/
theorem not_integrale_66 : ∃ es m, (machine .atmega328P).run (machine .atmega328P).init es = some m ∧
    sommeEcarts .atmega328P es = 33000 ∧ ¬ SommeExacte m.sketch.dir (sommeEcarts .atmega328P es) := by
  obtain ⟨m, hrun, htot⟩ := run_ticks .atmega328P ⟨0, 0⟩ 66 (machine .atmega328P).init
  have hs : sommeEcarts .atmega328P (List.replicate 66 (.tick ⟨0, 0⟩)) = 33000 := htot
  refine ⟨_, m, hrun, hs, fun h => ?_⟩
  have heq := h.exacte
  have hhi := m.sketch.dir.erreurSommeP.toInt_lt
  omega

end ICar
