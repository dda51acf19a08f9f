import ICar.Proof.Ordres

/-!
# The brake follows its order

The brake's regulator is proportional: its sum is `25 * (order - reading)`, converted to a
sixteen-bit `int` before it is limited to `[-400, 400]`. The orders that a run can give are
the signed bytes and the `-400` of a rest message (`OrdreFrein`), and the converted sum fits
for all of them but one: at `-400`, readings above 910 wrap, and the released brake is
driven at full braking (`vitesse_exacte_iff`).
-/

namespace ICar

open FixedWidth

variable {mcu : Mcu} {m m' : Machine} {v : Int16}

/-! ## The regulator -/

/-- The error that `frein::asservissement` works on. -/
def Frein.erreur (v : Int16) (p : Adc) : Int16 := (p.toInt16 - v) * -1

theorem toInt_erreur {p : Adc} (h : Fits (v.toInt - p.val)) (h' : Fits (p.val - v.toInt)) :
    (Frein.erreur v p).toInt = v.toInt - p.val := by
  have hsub : (p.toInt16 - v).toInt = p.val - v.toInt := by
    rw [toInt_sub (by rwa [toInt_adc]), toInt_adc]
  unfold Frein.erreur
  rw [toInt_mul_neg_one] <;> rw [hsub]
  · exact neg_sub ..
  · rwa [neg_sub]

/-- The integral and derivative gains are zero: the sum is the proportional term. -/
theorem valeur_frein (a : Asserv) (e : Int16) : a.valeur Frein.gains e = ((25 * e.toInt : ℤ) : ℚ) := by
  simp [Asserv.valeur, Frein.gains]

/-- The accumulators play no part in the speed. -/
theorem vitesse_eq (fr : Frein) (v : Int16) (p : Adc) :
    fr.vitesse v p = clamp (-400) 400 (ofQ ((25 * (Frein.erreur v p).toInt : ℤ) : ℚ)) := by
  unfold Frein.vitesse Frein.asservissement Asserv.asservissement
  rw [valeur_frein]
  rfl

/-- **The speed, when the converted sum fits.** -/
theorem toInt_vitesse (fr : Frein) {p : Adc} (h : Fits (25 * (Frein.erreur v p).toInt)) :
    (fr.vitesse v p).toInt = max (-400) (min 400 (25 * (Frein.erreur v p).toInt)) := by
  rw [vitesse_eq, toInt_clamp (by decide), toInt_ofQ (by rwa [truncQ_intCast]), truncQ_intCast]
  rfl

/-! ## The orders of a run -/

/-- The brake orders that messages and start-up can give. -/
def OrdreFrein (v : Int16) : Prop := v = -400 ∨ (-128 ≤ v.toInt ∧ v.toInt ≤ 127)

theorem ordreFrein_octet (b : Int8) : OrdreFrein b.toInt16 := by
  right
  rw [Int8.toInt_toInt16]
  have h1 := b.le_toInt
  have h2 := b.toInt_lt
  omega

/-- A message only gives such orders. -/
theorem ordreFrein_of_mem {t : List Int8}
    (h : .frCommande v ∈ parseMessage t ∨ .commandeFrein v ∈ parseMessage t) : OrdreFrein v := by
  have h100 : OrdreFrein 100 := .inr (by decide)
  unfold parseMessage at h
  rw [branche_eq] at h
  cases ho : ordre t with
  | frein b =>
    have hv : v = b.toInt16 := by simpa [ho, Ordre.stmts] using h
    exact hv ▸ ordreFrein_octet b
  | repos =>
    have hv : v = -400 := by simpa [ho, Ordre.stmts] using h
    exact .inl hv
  | direction b => simp [ho, Ordre.stmts] at h
  | variateur b => simp [ho, Ordre.stmts] at h
  | arret =>
    have hv : v = 100 := by simpa [ho, Ordre.stmts, arret] using h
    exact hv ▸ h100
  | defaut =>
    have hv : v = 100 := by simpa [ho, Ordre.stmts, arret] using h
    exact hv ▸ h100

/-- A brake order that the next event can apply: the stored one, for an interrupt, or one of
the message under execution. -/
def Applicable (m : Machine) (v : Int16) : Prop :=
  v = m.sketch.commandeFrein ∨ .frCommande v ∈ m.reste

theorem OrdreFrein.apres {o : Ordres} {i : Stmt} (ho : OrdreFrein o.frein)
    (hi : ∀ v, i = .commandeFrein v → OrdreFrein v) : OrdreFrein (o.apres i).frein := by
  cases i with
  | commandeFrein v => exact hi v rfl
  | _ => exact ho

/-- The stored order is always one of them. -/
theorem ordreFrein_stored (hm : (machine mcu).Reach m) : OrdreFrein m.sketch.ordres.frein := by
  refine ordres_inv (P := fun o => OrdreFrein o.frein) (.inr (by decide)) (fun t i hi o ho => ?_) hm
  exact ho.apres fun v hv => ordreFrein_of_mem (.inr (hv ▸ hi))

theorem ordreFrein_of_applicable (hm : (machine mcu).Reach m) (hv : Applicable m v) : OrdreFrein v := by
  rcases hv with rfl | hv
  · exact ordreFrein_stored hm
  · exact ordreFrein_of_mem (.inl ((reach_ok hm).reste.subset hv))

/-- No error wraps for such an order. -/
theorem OrdreFrein.erreur (hv : OrdreFrein v) (p : Adc) : (Frein.erreur v p).toInt = v.toInt - p.val := by
  have hp := p.isLt
  have hb : -400 ≤ v.toInt ∧ v.toInt ≤ 127 := by
    rcases hv with rfl | hv
    · decide
    · omega
  apply toInt_erreur <;> unfold Fits <;> omega

/-- **Which conversions fit.** -/
theorem OrdreFrein.fits_iff (hv : OrdreFrein v) (p : Adc) :
    Fits (25 * (Frein.erreur v p).toInt) ↔ (v = -400 → p.val ≤ 910) := by
  have hp := p.isLt
  rw [hv.erreur]
  unfold Fits
  rcases hv with rfl | hv
  · -- 25 * (-400 - p) reaches -32768 between p = 910 and p = 911
    have h400 : (-400 : Int16).toInt = -400 := by decide
    rw [h400]
    constructor
    · intro h _
      omega
    · intro h
      have := h rfl
      omega
  · have hne : v ≠ -400 := by
      rintro rfl
      exact absurd hv (by decide)
    constructor
    · intro _ h
      exact absurd h hne
    · intro _
      omega

/-! ## The brake against its order -/

/-- The converted sum fits, and the speed is the exact one, limited; so it has the sign of
order minus reading. -/
structure VitesseExacte (fr : Frein) (v : Int16) (p : Adc) : Prop where
  tient : Fits (truncQ (fr.toAsserv.valeur Frein.gains (Frein.erreur v p)))
  exacte : (fr.vitesse v p).toInt = max (-400) (min 400 (25 * (v.toInt - p.val)))
  signe : (fr.vitesse v p).toInt.sign = (v.toInt - p.val).sign

theorem sign_limite (x : ℤ) : (max (-400) (min 400 (25 * x))).sign = x.sign := by
  rcases lt_trichotomy x 0 with hx | rfl | hx
  · rw [Int.sign_eq_neg_one_of_neg hx, Int.sign_eq_neg_one_of_neg (by omega)]
  · rfl
  · rw [Int.sign_eq_one_of_pos hx, Int.sign_eq_one_of_pos (by omega)]

theorem OrdreFrein.vitesseExacte_iff (hv : OrdreFrein v) (fr : Frein) (p : Adc) :
    VitesseExacte fr v p ↔ (v = -400 → p.val ≤ 910) := by
  rw [← hv.fits_iff]
  constructor
  · intro h
    have := h.tient
    rwa [valeur_frein, truncQ_intCast] at this
  · intro h
    have hx := toInt_vitesse fr h
    rw [hv.erreur] at hx
    refine ⟨by rwa [valeur_frein, truncQ_intCast], hx, ?_⟩
    rw [hx, sign_limite]

/-- Where the speed is exact, it drives back exactly when the reading is above the order. -/
theorem OrdreFrein.vitesse_neg_iff (hv : OrdreFrein v) (fr : Frein) {p : Adc} (h : v = -400 → p.val ≤ 910) :
    fr.vitesse v p < 0 ↔ v.toInt < p.val := by
  have hx := ((hv.vitesseExacte_iff fr p).2 h).exacte
  have h0 : (0 : Int16).toInt = 0 := rfl
  rw [Int16.lt_iff_toInt_lt, hx, h0]
  omega

/-- A reading at most the order never drives the brake back. -/
theorem OrdreFrein.vitesse_nonneg (hv : OrdreFrein v) (fr : Frein) {p : Adc} (h : (p.val : ℤ) ≤ v.toInt) :
    ¬ fr.vitesse v p < 0 := by
  rw [hv.vitesse_neg_iff fr]
  · omega
  · rintro rfl
    have h400 : (-400 : Int16).toInt = -400 := by decide
    omega

/-- **When the brake follows its order.** For every reachable state and every order the next
event can apply: exactly when the order is not that of a rest message, or the reading is at
most 910. There the speed does not depend on the history, grows with the order and falls
with the reading. -/
theorem vitesse_exacte_iff (hm : (machine mcu).Reach m) (hv : Applicable m v) (p : Adc) :
    (VitesseExacte m.sketch.fr v p ↔ (v = -400 → p.val ≤ 910)) ∧
    (∀ fr : Frein, fr.vitesse v p = m.sketch.fr.vitesse v p) ∧
    ∀ m' v' (p' : Adc), (machine mcu).Reach m' → Applicable m' v' → (v = -400 → p.val ≤ 910) →
      (v' = -400 → p'.val ≤ 910) → v ≤ v' → p'.val ≤ p.val →
      m.sketch.fr.vitesse v p ≤ m'.sketch.fr.vitesse v' p' := by
  have ho := ordreFrein_of_applicable hm hv
  refine ⟨ho.vitesseExacte_iff _ p, fun fr => by rw [vitesse_eq, vitesse_eq], ?_⟩
  intro m' v' p' hm' hv' hp hp' hvv hpp
  have ho' := ordreFrein_of_applicable hm' hv'
  have h := ((ho.vitesseExacte_iff m.sketch.fr p).2 hp).exacte
  have h' := ((ho'.vitesseExacte_iff m'.sketch.fr p').2 hp').exacte
  rw [Int16.le_iff_toInt_le] at hvv ⊢
  rw [h, h']
  omega

/-- The state in which a rest message has just been received. -/
def recuR : Machine := ((machine .atmega328P).init.octet 82).octet 10

theorem reach_recuR : (machine .atmega328P).Reach recuR := ⟨[.octet 82, .octet 10], rfl⟩

/-- A rest order is followed at a reading of 910, and the order 0 stored before it is above. -/
theorem vitesse_exacte_repos : VitesseExacte recuR.sketch.fr (-400) 910 ∧
    recuR.sketch.fr.vitesse (-400) 910 ≤ recuR.sketch.fr.vitesse 0 37 := by
  obtain ⟨hiff, -, hmono⟩ := vitesse_exacte_iff reach_recuR (.inr (by decide) : Applicable recuR (-400)) 910
  exact ⟨hiff.2 (by decide),
    hmono recuR 0 37 reach_recuR (.inl rfl) (by decide) (by decide) (by decide) (by decide)⟩

/-- Released at a reading of 911, the brake is driven at full braking. -/
theorem not_vitesse_exacte_911 : (machine .atmega328P).Reach recuR ∧ Applicable recuR (-400) ∧
    ¬ VitesseExacte recuR.sketch.fr (-400) 911 ∧ recuR.sketch.fr.vitesse (-400) 911 = 400 := by
  have hv : Applicable recuR (-400) := .inr (by decide)
  have ho : OrdreFrein (-400) := .inl rfl
  refine ⟨reach_recuR, hv, ?_, ?_⟩
  · rw [ho.vitesseExacte_iff]
    decide
  · rw [vitesse_eq]
    decide +kernel

end ICar
