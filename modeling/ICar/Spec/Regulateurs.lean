import ICar.Spec.Ancien
import ICar.Spec.Controleur

/-!
# What the earlier brake and steering are for

Their controllers over the integers, without accumulators that no gain uses, board or registers.
The brake's has no machine arithmetic left; the steering's command is kept modulo 2^16, which
orders of two digits do not show.
-/

namespace ICar

/-- The order of two digits, in steps of ten. -/
def dizaines (b : ℕ → Int8) : ℤ := 100 * ((b 0).toInt - 48) + 10 * ((b 1).toInt - 48)

/-! ## The brake -/

theorem ecart_mem (p : Adc) : (p.val : ℤ) - 560 ∈ Set.Icc (-560) 463 := by
  have hp := p.isLt
  constructor <;> omega

theorem ecart_zero : (0 : ℤ) ∈ Set.Icc (-560) 463 := by constructor <;> decide

structure FreinEntier where
  ordre : ℤ
  /-- The error on the position when it was last regulated. -/
  ecart : Sortie (-560) 463
  vitesse : Sortie (-400) 400
  led : ℤ

namespace FreinEntier

/-- The emergency stop brakes at 400. Otherwise an order brakes at it, at most at 450, and no order
brings the jack back to its place, proportionally and against its movement. -/
def loop (lu : Option (ℕ → Int8)) (c : AncienFrein.Capteurs) (f : FreinEntier) : FreinEntier :=
  let ordre := lu.elim f.ordre dizaines
  let led := if ordre < 50 then 0 else 255
  let pression : ℤ := c.pression.val - 33
  if c.au.val < 50 then
    if ordre ≤ 0 then
      let ecart : Sortie (-560) 463 := ⟨c.pos.val - 560, ecart_mem c.pos⟩
      { ordre, led, ecart, vitesse := Set.projIcc (-400) 400 vitesse_ends (5 * ecart.val + (ecart.val - f.ecart.val)) }
    else { f with ordre, led, vitesse := Set.projIcc (-400) 400 vitesse_ends (20 * (min ordre 450 - pression)) }
  else { f with ordre, led, vitesse := Set.projIcc (-400) 400 vitesse_ends (20 * (400 - pression)) }

def debut : FreinEntier := ⟨0, ⟨0, ecart_zero⟩, Set.projIcc (-400) 400 vitesse_ends 0, 127⟩

end FreinEntier

def freinEntier : Sys (Blocs.Etat Int8 FreinEntier) (Blocs.Ev Int8 AncienFrein.Capteurs) :=
  Blocs.machine 2 .debut FreinEntier.loop

/-! ## The steering -/

structure DirectionEntiere where
  ordre : ℤ
  volant : ℤ

namespace DirectionEntiere

/-- What is put on the pin: 0 is the pause, 10 the end of the safe mode, and other orders are
positions, held by a proportional command `f`. -/
def pwm (f : ℤ → ℤ) (ordre : ℤ) (potar : Adc) : ℤ :=
  if ordre = 0 then 0 else if ordre = 10 then 65 else max 65 (min 245 (f (30 * (ordre - potar.val))))

def loop (f : ℤ → ℤ) (lu : Option (ℕ → Int8)) (potar : Adc) (d : DirectionEntiere) : DirectionEntiere :=
  let ordre := lu.elim d.ordre dizaines
  ⟨ordre, pwm f ordre potar⟩

end DirectionEntiere

/-- The steering, its command transformed by `f`. -/
def directionEntiere (f : ℤ → ℤ) : Sys (Blocs.Etat Int8 DirectionEntiere) (Blocs.Ev Int8 Adc) :=
  Blocs.machine 2 ⟨0, 0⟩ (DirectionEntiere.loop f)

end ICar
