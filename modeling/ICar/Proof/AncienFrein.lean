import ICar.Proof.Raffinement
import ICar.Spec.Regulateurs

/-!
# The earlier brake is the controller over the integers

`ancien_frein`: whatever bytes come, in whole blocks or not, and whatever the sensors read, the
sketch does what `freinEntier` does. An order is between -19360 and 8690, so the errors and the
commands made of them stay within sixteen bits. The sums of the errors do not, but their gain is 0.
-/

namespace ICar

open FixedWidth DualMC33926MotorShield

variable {mcu : Mcu} {s : AncienFrein} {f : FreinEntier}

/-! ## Orders and speeds -/

/-- A digit character less 48, and any other byte. -/
theorem toInt_chiffre (c : Int8) : (c.toInt16 - 48).toInt = c.toInt - 48 ∧ -176 ≤ c.toInt - 48 ∧ c.toInt - 48 ≤ 79 := by
  have hlo := c.le_toInt
  have hhi := c.toInt_lt
  have h48 : (48 : Int16).toInt = 48 := by decide
  refine ⟨?_, by omega, by omega⟩
  rw [toInt_sub, Int8.toInt_toInt16, h48]
  rw [Int8.toInt_toInt16, h48]
  constructor <;> omega

namespace AncienFrein

/-- **No order wraps**, whatever its two bytes. -/
theorem toInt_ConsigneF (lu : Option (ℕ → Int8)) (memo : Int16) :
    (ConsigneF lu memo).toInt = lu.elim memo.toInt dizaines := by
  cases lu with
  | none => rfl
  | some c =>
    obtain ⟨h0, h0lo, h0hi⟩ := toInt_chiffre (c 0)
    obtain ⟨h1, h1lo, h1hi⟩ := toInt_chiffre (c 1)
    have h10 : (10 : Int16).toInt = 10 := by decide
    have hd : (10 * ((c 0).toInt16 - 48)).toInt = 10 * ((c 0).toInt - 48) := by
      rw [toInt_mul] <;> rw [h10, h0]
      constructor <;> omega
    have hdu : (10 * ((c 0).toInt16 - 48) + ((c 1).toInt16 - 48)).toInt =
        10 * ((c 0).toInt - 48) + ((c 1).toInt - 48) := by
      rw [toInt_add] <;> rw [hd, h1]
      constructor <;> omega
    have hk : ((10 * ((c 0).toInt16 - 48) + ((c 1).toInt16 - 48)) * 10).toInt =
        (10 * ((c 0).toInt - 48) + ((c 1).toInt - 48)) * 10 := by
      rw [toInt_mul] <;> rw [hdu, h10]
      constructor <;> omega
    show ((10 * ((c 0).toInt16 - 48) + ((c 1).toInt16 - 48)) * 10).toInt = dizaines c
    rw [hk]
    unfold dizaines
    ring

/-- The pressure less its reading at rest. -/
theorem toInt_npos (p : Adc) : (p.toInt16 - 33).toInt = p.val - 33 := by
  have hp := p.isLt
  have h33 : (33 : Int16).toInt = 33 := by decide
  rw [toInt_sub] <;> rw [toInt_adc, h33]
  constructor <;> omega

/-- The integral and derivative gains are zero. -/
theorem valeur_gains (a : Asserv) (e : Int16) : a.valeur gains e = ((20 * e.toInt : ℤ) : ℚ) := by
  simp [Asserv.valeur, gains]

/-- A limited command is the integer one. -/
theorem toInt_limite {v : Int16} {n : ℤ} (h : v.toInt = n) :
    (clamp (-400) 400 v).toInt = Set.projIcc (-400) 400 vitesse_ends n := by
  rw [toInt_clamp (by decide), h, Set.coe_projIcc]
  rfl

/-- **The speed for a pressure.** -/
theorem toInt_vitesseF {v : Int16} (hlo : 0 ≤ v.toInt) (hhi : v.toInt ≤ 450) (p : Adc) (a : Asserv) :
    (clamp (-400) 400 (a.asservissement gains (v - (p.toInt16 - 33))).1).toInt =
      Set.projIcc (-400) 400 vitesse_ends (20 * (v.toInt - ((p.val : ℤ) - 33))) := by
  have hp := p.isLt
  have he : (v - (p.toInt16 - 33)).toInt = v.toInt - ((p.val : ℤ) - 33) := by
    rw [toInt_sub] <;> rw [toInt_npos]
    constructor <;> omega
  apply toInt_limite
  show (ofQ (a.valeur gains (v - (p.toInt16 - 33)))).toInt = _
  rw [valeur_gains, he, toInt_ofQ_intCast, bmod_of_fits]
  constructor <;> omega

/-- The error on a position. -/
theorem toInt_ecart (p : Adc) : (-560 - -p.toInt16).toInt = p.val - 560 := by
  have hp := p.isLt
  have hneg : (-p.toInt16).toInt = -p.val := by
    rw [toInt_neg] <;> rw [toInt_adc]
    constructor <;> omega
  have h560 : (-560 : Int16).toInt = -560 := by decide
  rw [toInt_sub, h560, hneg]
  · ring
  · rw [h560, hneg]
    constructor <;> omega

/-- **The speed for a position**, from two errors. -/
theorem toInt_vitesseP {e d somme : Int16} (he : e.toInt ∈ Set.Icc (-560) 463) (hd : d.toInt ∈ Set.Icc (-560) 463) :
    (clamp (-400) 400 (5 * e + 0 * somme + 1 * (e - d))).toInt =
      Set.projIcc (-400) 400 vitesse_ends (5 * e.toInt + (e.toInt - d.toInt)) := by
  obtain ⟨helo, hehi⟩ := he
  obtain ⟨hdlo, hdhi⟩ := hd
  have h5 : (5 : Int16).toInt = 5 := by decide
  have hmul : (5 * e).toInt = 5 * e.toInt := by
    rw [toInt_mul] <;> rw [h5]
    constructor <;> omega
  have hsub : (e - d).toInt = e.toInt - d.toInt := toInt_sub (by constructor <;> omega)
  apply toInt_limite
  rw [Int16.zero_mul, Int16.one_mul, Int16.add_zero, toInt_add] <;> rw [hmul, hsub]
  constructor <;> omega

/-! ## The simulation -/

/-- What the sketch keeps of the controller. -/
structure Represente (s : AncienFrein) (f : FreinEntier) : Prop where
  ordre : s.sF.toInt = f.ordre
  ecart : s.asservP.erreurPrecP.toInt = f.ecart
  vitesse : s.board.m1Speed.toInt = f.vitesse
  sens : s.board.pin md.M1DIR = .HIGH ↔ f.vitesse.val < 0
  enable : s.board.pin md.nD2 = .HIGH
  led : (s.board.pin ledPin).duty.toInt = f.led

theorem represente_setup (mcu : Mcu) : Represente (setup mcu) .debut where
  ordre := rfl
  ecart := rfl
  vitesse := by cases mcu <;> decide
  sens := by cases mcu <;> decide
  enable := by cases mcu <;> decide
  led := by cases mcu <;> decide

namespace Represente

/-- The order and the LED that shows it. -/
theorem recoit (h : Represente s f) (lu : Option (ℕ → Int8)) :
    Represente { s with sF := ConsigneF lu s.sF,
                        board := s.board.analogWrite ledPin (if ConsigneF lu s.sF < 50 then 0 else 255) }
      { f with ordre := lu.elim f.ordre dizaines, led := if lu.elim f.ordre dizaines < 50 then 0 else 255 } := by
  have hk : (ConsigneF lu s.sF).toInt = lu.elim f.ordre dizaines := by rw [toInt_ConsigneF, h.ordre]
  have hlt : ConsigneF lu s.sF < 50 ↔ lu.elim f.ordre dizaines < 50 := by rw [← hk]; exact Int16.lt_iff_toInt_lt
  refine ⟨hk, h.ecart, ?_, ?_, ?_, ?_⟩
  · rw [Board.analogWrite_m1Speed]
    exact h.vitesse
  · rw [Board.analogWrite_pin_of_ne _ _ (by decide)]
    exact h.sens
  · rw [Board.analogWrite_pin_of_ne _ _ (by decide)]
    exact h.enable
  · rw [Board.analogWrite_duty]
    by_cases h50 : lu.elim f.ordre dizaines < 50
    · rw [if_pos (hlt.2 h50), if_pos h50]
      rfl
    · rw [if_neg fun hc => h50 (hlt.1 hc), if_neg h50]
      rfl

/-- A speed given to the shield, and what the regulators keep. -/
theorem freine (h : Represente s f) {v : Int16} {w : Sortie (-400) 400} (hv : v.toInt = w) (a : Asserv) {p : Asserv}
    {e : Sortie (-560) 463} (hp : p.erreurPrecP.toInt = e) :
    Represente { s with asservF := a, asservP := p, board := md.setM1Speed v s.board }
      { f with vitesse := w, ecart := e } := by
  have hneg : v < 0 ↔ w.val < 0 := by rw [← hv]; exact Int16.lt_iff_toInt_lt
  refine ⟨h.ordre, hp, ?_, ?_, ?_, ?_⟩
  · rw [setM1Speed_m1Speed]
    exact hv
  · rw [setM1Speed_dir, ← hneg]
    split <;> simp_all
  · exact (setM1Speed_pin_of_ne md v s.board (by decide) (by decide)).trans h.enable
  · dsimp only
    rw [setM1Speed_pin_of_ne md v s.board (by decide) (by decide)]
    exact h.led

/-- **One turn.** -/
theorem loop (h : Represente s f) (lu : Option (ℕ → Int8)) (c : Capteurs) :
    Represente (AncienFrein.loop lu c s) (FreinEntier.loop lu c f) := by
  have hr := h.recoit lu
  have hk := hr.ordre
  dsimp only at hk
  have hau : c.au.toInt16 < 50 ↔ c.au.val < 50 := by
    rw [Int16.lt_iff_toInt_lt, toInt_adc]
    exact Nat.cast_lt
  have h0 : ConsigneF lu s.sF ≤ 0 ↔ lu.elim f.ordre dizaines ≤ 0 := by rw [← hk]; exact Int16.le_iff_toInt_le
  unfold AncienFrein.loop FreinEntier.loop
  dsimp only
  by_cases hsafe : c.au.val < 50
  · rw [if_pos (hau.2 hsafe), if_pos hsafe]
    by_cases hle : lu.elim f.ordre dizaines ≤ 0
    · -- no order: the position
      rw [if_pos (h0.2 hle), if_pos hle]
      have he := toInt_ecart c.pos
      have hmem := ecart_mem c.pos
      refine hr.freine ?_ _ he
      rw [← he, ← h.ecart]
      exact toInt_vitesseP (he ▸ hmem) (h.ecart ▸ f.ecart.2)
    · -- an order: the pressure, up to 450
      rw [if_neg fun hc => hle (h0.1 hc), if_neg hle]
      refine hr.freine ?_ _ h.ecart
      have h450 : (450 : Int16).toInt = 450 := by decide
      have hgt : ConsigneF lu s.sF > 450 ↔ 450 < lu.elim f.ordre dizaines := by
        rw [← hk, ← h450]
        exact Int16.lt_iff_toInt_lt
      by_cases hmax : 450 < lu.elim f.ordre dizaines
      · rw [if_pos (hgt.2 hmax), min_eq_right hmax.le]
        exact toInt_vitesseF (by decide) (by decide) c.pression s.asservF
      · rw [if_neg fun hc => hmax (hgt.1 hc), min_eq_left (not_lt.1 hmax), ← hk]
        exact toInt_vitesseF (by omega) (by omega) c.pression s.asservF
  · rw [if_neg fun hc => hsafe (hau.1 hc), if_neg hsafe]
    exact hr.freine (toInt_vitesseF (v := 400) (by decide) (by decide) c.pression s.asservF) _ h.ecart

end Represente

/-- **The earlier brake computes its controller exactly**, in every run: any bytes, blocks cut
anywhere, any readings. -/
theorem ancien_frein (mcu : Mcu) : (machine mcu).Bisim freinEntier
    fun s t => Represente s.prog t.prog ∧ s.attente = t.attente ∧ s.lectures = t.lectures :=
  Blocs.bisim (represente_setup mcu) fun lu c _ _ h => h.loop lu c

end AncienFrein

end ICar
