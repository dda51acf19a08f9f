import ICar.Proof.Volant

/-!
# The steering swings from end to end

While the wheel stays off its order, the steering adds the same error at each interrupt, and the
sum wraps at sixteen bits. A step of at most 1175 cannot jump over a window of the range that is
wider, so the sum comes by every such window (`FixedWidth.visite`), among them one where the
integral term alone puts the output at its lower end, and one where it puts it at its upper end.

`bascule`: so interrupts alone drive the steering to both ends, whichever side of its order the
wheel is on.
-/

namespace ICar

open FixedWidth

variable {mcu : Mcu} {m m' : Machine}

/-- The state after `n` interrupts with the same readings: nothing but the sum has moved the
steering. -/
theorem ticks_dir (hm : (machine mcu).Reach m) (c : Sensors) (n : ℕ) : ∃ m',
    (machine mcu).run m (List.replicate n (.tick c)) = some m' ∧
    m'.sketch.commandeDirection = m.sketch.commandeDirection ∧
    m'.sketch.dir.erreurSommeP.toInt =
      (m.sketch.dir.erreurSommeP.toInt + n * ecart (m.sketch.commandeDirection, c.potar)).bmod (2 ^ 16) := by
  induction n with
  | zero => exact ⟨m, rfl, rfl, by simp⟩
  | succ n ih =>
    obtain ⟨u, hrun, hord, hsum⟩ := ih
    have hv : OrdreDirection u.sketch.commandeDirection := ordreDirection_stored (hm.run hrun)
    have hstep : (machine mcu).step u (.tick c) = some { u with sketch := u.sketch.isr c } := rfl
    refine ⟨{ u with sketch := u.sketch.isr c }, ?_, ?_, ?_⟩
    · rw [List.replicate_succ']
      exact Sys.run_append_some.2 ⟨u, hrun, Sys.run_cons_some.2 ⟨_, hstep, rfl⟩⟩
    · exact (congrArg Ordres.direction (isr_ordres c u.sketch)).trans hord
    · have hadd : (u.sketch.isr c).dir.erreurSommeP =
          u.sketch.dir.erreurSommeP + Direction.erreur u.sketch.commandeDirection c.potar := by
        rw [isr_dir]
        rfl
      dsimp only
      rw [hadd, Int16.toInt_add, hsum, hv.erreur, hord, Int.bmod_add_bmod]
      push_cast
      ring_nf

/-- The output after one interrupt more. -/
theorem ticks_volant (hm : (machine mcu).Reach m) (c : Sensors) (n : ℕ) : ∃ m',
    (machine mcu).run m (List.replicate (n + 1) (.tick c)) = some m' ∧
    m'.sketch.volant.toInt = max 65 (min 245 (truncQ (5 * ecart (m.sketch.commandeDirection, c.potar) +
      3 / 10 * (m.sketch.dir.erreurSommeP.toInt +
        (n + 1 : ℕ) * ecart (m.sketch.commandeDirection, c.potar)).bmod (2 ^ 16)))) := by
  obtain ⟨u, hrun, hord, hsum⟩ := ticks_dir hm c n
  have hv : OrdreDirection u.sketch.commandeDirection := ordreDirection_stored (hm.run hrun)
  have hstep : (machine mcu).step u (.tick c) = some { u with sketch := u.sketch.isr c } := rfl
  refine ⟨{ u with sketch := u.sketch.isr c }, ?_, ?_⟩
  · rw [List.replicate_succ']
    exact Sys.run_append_some.2 ⟨u, hrun, Sys.run_cons_some.2 ⟨_, hstep, rfl⟩⟩
  · have hadd : (u.sketch.dir.erreurSommeP + Direction.erreur u.sketch.commandeDirection c.potar).toInt =
        (m.sketch.dir.erreurSommeP.toInt +
          (n + 1 : ℕ) * ecart (m.sketch.commandeDirection, c.potar)).bmod (2 ^ 16) := by
      rw [Int16.toInt_add, hsum, hv.erreur, hord, Int.bmod_add_bmod]
      push_cast
      ring_nf
    dsimp only
    rw [isr_volant, hv.pwm, Direction.commandeReelle, hadd, hord]

/-- **The steering swings from end to end.** From every reachable state, with readings that do
not change and a wheel that is not at its order, some number of interrupts puts the output at
its lower end, and some number at its upper end. -/
theorem bascule (hm : (machine mcu).Reach m) (c : Sensors)
    (he : m.sketch.commandeDirection.toInt ≠ c.potar.val) :
    (∃ n m', (machine mcu).run m (List.replicate n (.tick c)) = some m' ∧ m'.sketch.volant = 65) ∧
    ∃ n m', (machine mcu).run m (List.replicate n (.tick c)) = some m' ∧ m'.sketch.volant = 245 := by
  have hv : OrdreDirection m.sketch.commandeDirection := ordreDirection_stored hm
  obtain ⟨hlo, hhi⟩ := hv.ecart_le c.potar
  have hne : ecart (m.sketch.commandeDirection, c.potar) ≠ 0 := by unfold ecart; simp only; omega
  generalize hE : ecart (m.sketch.commandeDirection, c.potar) = e at hlo hhi hne
  generalize hS : m.sketch.dir.erreurSommeP.toInt = s
  have hel : (-1175 : ℚ) ≤ e := by exact_mod_cast hlo
  have heh : (e : ℚ) ≤ 500 := by exact_mod_cast hhi
  have h65 : (65 : Int16).toInt = 65 := by decide
  have h245 : (245 : Int16).toInt = 245 := by decide
  have habs : |e| ≤ (1175 : ℕ) := abs_le.2 ⟨hlo, hhi.trans (by decide)⟩
  constructor
  · -- a sum below -10000: 5 * 500 - 3000 is below 65
    obtain ⟨n, hn⟩ := visite s (a := -11175) hne habs (by decide) (by decide)
    obtain ⟨m', hrun, hvol⟩ := ticks_volant hm c n
    refine ⟨n + 1, m', hrun, Int16.toInt_inj.1 ?_⟩
    rw [hE, hS] at hvol
    have hle : truncQ (5 * e + 3 / 10 * (s + (n + 1 : ℕ) * e).bmod (2 ^ 16)) ≤ 65 := by
      apply truncQ_le
      have h1 : ((s + (n + 1 : ℕ) * e).bmod (2 ^ 16) : ℚ) ≤ -10000 := by exact_mod_cast (by omega)
      push_cast at h1 ⊢
      linarith
    rw [hvol, h65]
    omega
  · -- a sum of at least 21000: -5 * 1175 + 6300 is above 245
    obtain ⟨n, hn⟩ := visite s (a := 21000) hne habs (by decide) (by decide)
    obtain ⟨m', hrun, hvol⟩ := ticks_volant hm c n
    refine ⟨n + 1, m', hrun, Int16.toInt_inj.1 ?_⟩
    rw [hE, hS] at hvol
    have hle : 245 ≤ truncQ (5 * e + 3 / 10 * (s + (n + 1 : ℕ) * e).bmod (2 ^ 16)) := by
      apply le_truncQ
      have h1 : (21000 : ℚ) ≤ (s + (n + 1 : ℕ) * e).bmod (2 ^ 16) := by exact_mod_cast hn.1
      push_cast at h1 ⊢
      linarith
    rw [hvol, h245]
    omega

/-- At start-up, the sensor one below the order of 500: to one end, and to the other. -/
theorem bascule_setup :
    (∃ n m', (machine .atmega328P).run (machine .atmega328P).init (List.replicate n (.tick ⟨0, 499⟩)) = some m' ∧
      m'.sketch.volant = 65) ∧
    ∃ n m', (machine .atmega328P).run (machine .atmega328P).init (List.replicate n (.tick ⟨0, 499⟩)) = some m' ∧
      m'.sketch.volant = 245 :=
  bascule Sys.Reach.init ⟨0, 499⟩ (by decide)

end ICar
