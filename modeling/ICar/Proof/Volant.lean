import ICar.Proof.Broches
import ICar.Proof.Integrale

/-!
# The steering's output

`volant` is the duty cycle on `carte_de_puissance`, whose board locks outside `[65, 245]`. The
limits of `direction::commande` come after the conversion to `int`, so they protect only if the
converted value fits.

* `appelExact`: over every run it does. The orders of a run bound the error (`ecart_le`), hence
  the previous error too (`erreurPrecP_borne`), and the accumulator is sixteen-bit.
* `volant_limite`: so every call puts the exact value on the pin, truncated and limited.
-/

namespace ICar

open FixedWidth

variable {mcu : Mcu} {m m' : Machine} {v : Int16}

/-- The PWM value on `carte_de_puissance`. -/
def Sketch.volant (s : Sketch) : Int16 := (s.board.pin Direction.carteDePuissance).duty

/-! ## What the operations write -/

section Operations

variable (s : Sketch) (c : Sensors) (value : Int16)

@[simp] theorem dirCommande_volant :
    (s.dirCommande value c).volant = clamp 65 245 (s.dir.asservissement value c.potar.toInt16).1 := by
  simp only [Sketch.volant, Sketch.dirCommande, Direction.commande, Board.analogWrite_duty]

@[simp] theorem frCommande_volant : (s.frCommande value c).volant = s.volant := by
  unfold Sketch.volant
  rw [frCommande_pin s c value (by decide) (by decide)]

/-- The throttle's initialisation does not write the steering's pin. -/
theorem initvar_volant (b : Board) :
    (Variateur.initvar b).2.pin Direction.carteDePuissance = b.pin Direction.carteDePuissance := by
  simp only [Variateur.initvar]
  iterate 7 rw [Board.digitalWrite_pin_of_ne _ _ (by decide)]

@[simp] theorem varCommande_volant : (s.varCommande value).volant = s.volant := by
  simp only [Sketch.volant, Sketch.varCommande, Variateur.commande]
  rw [Board.analogWrite_pin_of_ne _ _ (by decide)]
  split
  · rfl
  · rw [initvar_volant]

@[simp] theorem varLock_volant : s.varLock.volant = s.volant := by
  simp only [Sketch.volant, Sketch.varLock, Variateur.lock]
  rw [Board.digitalWrite_pin_of_ne _ _ (by decide), Board.digitalWrite_pin_of_ne _ _ (by decide)]

/-- **What a statement does to the steering's output.** -/
theorem exec_volant (i : Stmt) : (i.exec c s).volant =
    match i with
    | .dirCommande v => clamp 65 245 (s.dir.asservissement v c.potar.toInt16).1
    | _ => s.volant := by
  cases i with
  | dirCommande v => exact dirCommande_volant s c v
  | frCommande v => exact frCommande_volant s c v
  | varCommande v => exact varCommande_volant s v
  | varLock => exact varLock_volant s
  | _ => rfl

/-- **An interrupt applies the stored order.** -/
theorem isr_volant : (s.isr c).volant =
    clamp 65 245 (s.dir.asservissement s.commandeDirection c.potar.toInt16).1 := by
  unfold Sketch.isr
  rw [varCommande_volant, dirCommande_volant]
  unfold Sketch.frCommande
  rfl

end Operations

/-- **One event, one call**: the output after it. -/
theorem step_volant {e : Ev} (h : (machine mcu).step m e = some m') : m'.sketch.volant =
    match m.appelDir e with
    | some (v, p) => clamp 65 245 (m.sketch.dir.asservissement v p.toInt16).1
    | none => m.sketch.volant := by
  rcases step_cases h with ⟨b, rfl, -, rfl⟩ | ⟨c, i, l, rfl, hr, rfl⟩ | ⟨c, rfl, rfl⟩
  · unfold Machine.octet
    split <;> rfl
  · rw [exec_volant]
    unfold Machine.appelDir
    rw [hr]
    cases i <;> rfl
  · exact isr_volant m.sketch c

/-! ## The value of a call -/

/-- The value `kp * erreur + ki * erreur_sommeP` of a call: its error is exact, its sum sixteen-bit. -/
def Direction.commandeReelle (dir : Direction) (a : Int16 × Adc) : ℚ :=
  5 * ecart a + 3 / 10 * (dir.erreurSommeP + Direction.erreur a.1 a.2).toInt

/-- A call without arithmetic fault: neither the error nor its variation wraps, and the value
that is converted fits. -/
structure AppelExact (dir : Direction) (a : Int16 × Adc) : Prop where
  erreur : (Direction.erreur a.1 a.2).toInt = ecart a
  delta : (Direction.erreur a.1 a.2 - dir.erreurPrecP).toInt = ecart a - dir.erreurPrecP.toInt
  valeur : dir.toAsserv.valeur Direction.gains (Direction.erreur a.1 a.2) = dir.commandeReelle a
  borneInf : -2 ^ 15 ≤ dir.commandeReelle a
  borneSup : dir.commandeReelle a ≤ 2 ^ 15 - 1

/-- The previous error is one of the errors of the run, or 0. -/
theorem erreurPrecP_borne (hm : (machine mcu).Reach m) :
    -1175 ≤ m.sketch.dir.erreurPrecP.toInt ∧ m.sketch.dir.erreurPrecP.toInt ≤ 500 := by
  refine Sys.Reach.inv (M := machine mcu)
    (I := fun t => -1175 ≤ t.sketch.dir.erreurPrecP.toInt ∧ t.sketch.dir.erreurPrecP.toInt ≤ 500)
    (by cases mcu <;> decide) (fun t e t' ht hb hstep => ?_) hm
  rw [step_dir hstep]
  cases ha : t.appelDir e with
  | none => exact hb
  | some a =>
    have hv : OrdreDirection a.1 := ordreDirection_appel ht hstep ha
    have he : (Direction.erreur a.1 a.2).toInt = ecart a := hv.erreur a.2
    change -1175 ≤ (Direction.erreur a.1 a.2).toInt ∧ (Direction.erreur a.1 a.2).toInt ≤ 500
    rw [he]
    exact hv.ecart_le a.2

/-- The value of a call is within the range of `int`: 5 * 1175 + 3/10 * 2^15 is below 2^15. -/
theorem OrdreDirection.commandeReelle_borne (hv : OrdreDirection v) (dir : Direction) (p : Adc) :
    -2 ^ 15 ≤ dir.commandeReelle (v, p) ∧ dir.commandeReelle (v, p) ≤ 2 ^ 15 - 1 := by
  obtain ⟨hlo, hhi⟩ := hv.ecart_le p
  have hslo := (dir.erreurSommeP + Direction.erreur v p).le_toInt
  have hshi := (dir.erreurSommeP + Direction.erreur v p).toInt_lt
  unfold Direction.commandeReelle
  generalize (dir.erreurSommeP + Direction.erreur v p).toInt = somme at hslo hshi ⊢
  generalize ecart (v, p) = e at hlo hhi ⊢
  have h1 : (-1175 : ℚ) ≤ e := by exact_mod_cast hlo
  have h2 : (e : ℚ) ≤ 500 := by exact_mod_cast hhi
  have h3 : (-2 ^ 15 : ℚ) ≤ somme := by exact_mod_cast hslo
  have h4 : (somme : ℚ) < 2 ^ 15 := by exact_mod_cast hshi
  constructor <;> linarith

/-- The regulator's sum is that value: its derivative gain is zero. -/
theorem OrdreDirection.valeur (hv : OrdreDirection v) (dir : Direction) (p : Adc) :
    dir.toAsserv.valeur Direction.gains (Direction.erreur v p) = dir.commandeReelle (v, p) := by
  simp [Asserv.valeur, Direction.gains, Direction.commandeReelle, hv.erreur p]

/-- **The PWM value of a call** is its exact value, truncated and limited. -/
theorem OrdreDirection.pwm (hv : OrdreDirection v) (dir : Direction) (p : Adc) :
    (clamp 65 245 (dir.asservissement v p.toInt16).1).toInt =
      max 65 (min 245 (truncQ (dir.commandeReelle (v, p)))) := by
  obtain ⟨hmin, hmax⟩ := hv.commandeReelle_borne dir p
  have hconv : (dir.asservissement v p.toInt16).1 = ofQ (dir.commandeReelle (v, p)) :=
    congrArg ofQ (hv.valeur dir p)
  rw [hconv, toInt_clamp (by decide), toInt_ofQ (fits_truncQ hmin hmax)]
  rfl

/-- **No call of a run has an arithmetic fault.** -/
theorem appelExact (hm : (machine mcu).Reach m) {e : Ev} (h : (machine mcu).step m e = some m')
    {a : Int16 × Adc} (ha : m.appelDir e = some a) : AppelExact m.sketch.dir a := by
  obtain ⟨v, p⟩ := a
  have hv : OrdreDirection v := ordreDirection_appel hm h ha
  have he : (Direction.erreur v p).toInt = ecart (v, p) := hv.erreur p
  obtain ⟨hlo, hhi⟩ := hv.ecart_le p
  obtain ⟨hplo, hphi⟩ := erreurPrecP_borne hm
  obtain ⟨hmin, hmax⟩ := hv.commandeReelle_borne m.sketch.dir p
  refine ⟨he, ?_, hv.valeur m.sketch.dir p, hmin, hmax⟩
  rw [toInt_sub] <;> rw [he]
  unfold Fits
  omega

/-- **The steering's output is its exact value, limited**: at every call of every run nothing
wraps, and the pin gets the value truncated and limited to `[65, 245]`. -/
theorem volant_limite (hm : (machine mcu).Reach m) {e : Ev} (h : (machine mcu).step m e = some m')
    {a : Int16 × Adc} (ha : m.appelDir e = some a) : AppelExact m.sketch.dir a ∧
      m'.sketch.volant.toInt = max 65 (min 245 (truncQ (m.sketch.dir.commandeReelle a))) := by
  refine ⟨appelExact hm h ha, ?_⟩
  rw [step_volant h, ha]
  exact (ordreDirection_appel hm h ha).pwm m.sketch.dir a.2

/-- The first interrupt, the sensor at 0: 5 * 500 + 3/10 * 500 is above the limit. -/
theorem volant_limite_setup : ∃ m',
    (machine .atmega328P).step (machine .atmega328P).init (.tick ⟨0, 0⟩) = some m' ∧
    (machine .atmega328P).init.sketch.dir.commandeReelle (500, 0) = 2650 ∧ m'.sketch.volant.toInt = 245 := by
  have hreel : (machine .atmega328P).init.sketch.dir.commandeReelle (500, 0) = 2650 := by decide +kernel
  obtain ⟨-, hpwm⟩ := volant_limite (e := .tick ⟨0, 0⟩) (a := (500, 0))
    (Sys.Reach.init (M := machine .atmega328P)) rfl rfl
  rw [hreel] at hpwm
  exact ⟨_, rfl, hreel, hpwm.trans (by decide +kernel)⟩

end ICar
