import ICar.Proof.Arret
import ICar.Proof.Volant

/-!
# A repeated message

A message calls its regulator at once, besides the interrupt. The regulators of the brake and
of the throttle keep nothing from one call to the next, so for them a message received `k`
times is the message received once. The steering adds its error to its sum at every call
(`dir_iterate`): each repetition of a `D` or an `S` moves it as an interrupt does. The formula for
its output reads the gain 0.3 as 3/10 exactly.

* `repetition`: the outputs after `k` receptions and an interrupt.
* `not_repetition_neutre`: a `D` received twice does not leave the steering as one does.
-/

namespace ICar

open FixedWidth

variable {s : Sketch} {c : Sensors} {t : List Int8} {v : Int16} {k : ℕ}

/-- A message processed `k` times in a row, then an interrupt, all with the same readings. -/
def Sketch.repete (c : Sensors) (t : Trame) (k : ℕ) (s : Sketch) : Sketch :=
  ((Sketch.execute c t.texte)^[k] s).isr c

/-- The same stored orders, and the same outputs of the three actuators. -/
structure MemesSorties (s s' : Sketch) : Prop where
  ordres : s.ordres = s'.ordres
  volant : s.volant = s'.volant
  m1Speed : s.board.m1Speed = s'.board.m1Speed
  gaz : s.gaz = s'.gaz

/-- At rest, receptions in a row are executions in a row. -/
theorem serialEvent_replicate (hs : s.inputString = []) (t : Trame) (k : ℕ) :
    s.serialEvent (recus c (List.replicate k t.texte).flatten) = (Sketch.execute c t.texte)^[k] s := by
  induction k generalizing s with
  | zero => rfl
  | succ k ih =>
    have hrecus : recus c (t.texte ++ (List.replicate k t.texte).flatten) =
        recus c t.texte ++ recus c (List.replicate k t.texte).flatten := List.map_append
    rw [List.replicate_succ, List.flatten_cons, hrecus, serialEvent_append, serialEvent_trame hs,
      ih (execute_inputString ..), Function.iterate_succ_apply]

/-! ## The stored orders -/

theorem ordres_execute (c : Sensors) (t : List Int8) (s : Sketch) :
    (s.execute c t).ordres = (parseMessage t).foldl Ordres.apres s.ordres :=
  execute_foldl (fun i s => exec_ordres c i s) (fun _ _ => rfl) t s

/-- A message stores the same orders over its own. -/
theorem apres_parseMessage (t : List Int8) (o : Ordres) :
    (parseMessage t).foldl Ordres.apres ((parseMessage t).foldl Ordres.apres o) =
      (parseMessage t).foldl Ordres.apres o := by
  unfold parseMessage
  rw [branche_eq]
  cases ordre t <;> rfl

/-- **The orders after a message processed again** are those after the first time. -/
theorem ordres_iterate (c : Sensors) (t : List Int8) (s : Sketch) (hk : 1 ≤ k) :
    ((Sketch.execute c t)^[k] s).ordres = (s.execute c t).ordres := by
  induction k, hk using Nat.le_induction with
  | base => rfl
  | succ k hk ih => rw [Function.iterate_succ_apply', ordres_execute, ih, ordres_execute, apres_parseMessage]

/-! ## The steering's accumulators -/

/-- The order that a message gives the steering: the scaled value of a `D`, the 50 of `arret()`. -/
def ordreVolant (t : List Int8) : Option Int16 :=
  match ordre t with
  | .direction v => some (echelle v)
  | .arret | .defaut => some 50
  | .frein _ | .variateur _ | .repos => none

/-- It is the order of a statement of the message, so one of those of a run. -/
theorem ordreDirection_ordreVolant (h : ordreVolant t = some v) : OrdreDirection v := by
  refine ordreDirection_of_mem (t := t) (.inl ?_)
  unfold ordreVolant at h
  unfold parseMessage
  rw [branche_eq]
  cases ho : ordre t <;> rw [ho] at h <;> cases h <;> simp [Ordre.stmts, arret]

/-- A statement's effect on the accumulators. -/
def dirApres (c : Sensors) (dir : Direction) : Stmt → Direction
  | .dirCommande v => (dir.asservissement v c.potar.toInt16).2
  | _ => dir

/-- What a message does to them: one call, on its order. -/
theorem dir_execute (c : Sensors) (t : List Int8) (s : Sketch) : (s.execute c t).dir =
    match ordreVolant t with
    | some v => (s.dir.asservissement v c.potar.toInt16).2
    | none => s.dir := by
  rw [execute_foldl (f := Sketch.dir) (g := dirApres c)
    (fun i s => (exec_dir c i s).trans (by cases i <;> rfl)) (fun _ _ => rfl)]
  unfold parseMessage ordreVolant
  rw [branche_eq]
  cases ordre t <;> rfl

/-- That order is the one stored. -/
theorem direction_execute (h : ordreVolant t = some v) (c : Sensors) (s : Sketch) :
    (s.execute c t).commandeDirection = v := by
  have hord : (s.execute c t).commandeDirection = ((parseMessage t).foldl Ordres.apres s.ordres).direction :=
    congrArg Ordres.direction (ordres_execute c t s)
  rw [hord]
  unfold parseMessage
  unfold ordreVolant at h
  rw [branche_eq]
  cases ho : ordre t <;> rw [ho] at h <;> cases h <;> rfl

/-- **The sum after a message processed `k` times**: one error each, modulo 2^16. -/
theorem dir_iterate (h : ordreVolant t = some v) (c : Sensors) (s : Sketch) (k : ℕ) :
    ((Sketch.execute c t)^[k] s).dir.erreurSommeP.toInt =
      (s.dir.erreurSommeP.toInt + k * ecart (v, c.potar)).bmod (2 ^ 16) := by
  have herr : (Direction.erreur v c.potar).toInt = ecart (v, c.potar) :=
    (ordreDirection_ordreVolant h).erreur c.potar
  induction k with
  | zero => simp
  | succ k ih =>
    have hstep : ((Sketch.execute c t)^[k + 1] s).dir.erreurSommeP =
        ((Sketch.execute c t)^[k] s).dir.erreurSommeP + Direction.erreur v c.potar := by
      rw [Function.iterate_succ_apply', dir_execute, h]
      rfl
    rw [hstep, Int16.toInt_add, ih, herr, Int.bmod_add_bmod]
    push_cast
    ring_nf

/-- A message without order to the steering leaves its accumulators. -/
theorem dir_iterate_none (h : ordreVolant t = none) (c : Sensors) (s : Sketch) (k : ℕ) :
    ((Sketch.execute c t)^[k] s).dir = s.dir := by
  induction k with
  | zero => rfl
  | succ k ih => rw [Function.iterate_succ_apply', dir_execute, h, ih]

/-! ## The outputs -/

/-- **An interrupt drives the brake by the stored order and the reading alone.** -/
theorem isr_m1Speed (c : Sensors) (s : Sketch) : (s.isr c).board.m1Speed =
    clamp (-400) 400 (ofQ ((25 * (Frein.erreur s.commandeFrein c.pression).toInt : ℤ) : ℚ)) := by
  have hvue : (s.isr c).board.m1Speed =
      ((s.vue.freine (s.fr.vitesse s.commandeFrein c.pression)).accelere).speed := congrArg Vue.speed (vue_isr s c)
  rw [hvue, ← vitesse_eq s.fr]
  cases hi : s.vue.isInit with
  | true => simp [Vue.accelere, Vue.freine, hi]
  | false => simp [Vue.accelere, Vue.freine, hi]

/-- **What repetitions leave.** In every state, for every message processed `k` times in a row
before an interrupt: the stored orders and the outputs of the brake and of the throttle are
those of one processing, and so is the steering's if the message gives it no order. A steering
order adds its error to the sum at each processing, and once more at the interrupt; the output is
computed from the sum with the gains 5 and 3/10 read exactly. With an empty text, the message
received `k` times is processed `k` times. -/
theorem repetition (s : Sketch) (t : Trame) (hk : 1 ≤ k) (c : Sensors) :
    (s.inputString = [] →
      (s.serialEvent (recus c (List.replicate k t.texte).flatten)).isr c = s.repete c t k) ∧
    (s.repete c t k).ordres = (s.repete c t 1).ordres ∧
    (s.repete c t k).board.m1Speed = (s.repete c t 1).board.m1Speed ∧
    (s.repete c t k).gaz = (s.repete c t 1).gaz ∧
    (ordreVolant t.texte = none → (s.repete c t k).volant = (s.repete c t 1).volant) ∧
    ∀ v, ordreVolant t.texte = some v → (s.repete c t k).volant.toInt = max 65 (min 245 (truncQ
      (5 * ecart (v, c.potar) +
        3 / 10 * (s.dir.erreurSommeP.toInt + (k + 1) * ecart (v, c.potar)).bmod (2 ^ 16)))) := by
  refine ⟨fun hs => congrArg (Sketch.isr c) (serialEvent_replicate hs t k), ?_⟩
  unfold Sketch.repete
  rw [Function.iterate_one]
  have hord := ordres_iterate c t.texte s hk
  have hfr : ((Sketch.execute c t.texte)^[k] s).commandeFrein = (s.execute c t.texte).commandeFrein :=
    congrArg Ordres.frein hord
  have hvar : ((Sketch.execute c t.texte)^[k] s).commandeVariateur = (s.execute c t.texte).commandeVariateur :=
    congrArg Ordres.variateur hord
  have hdir : ((Sketch.execute c t.texte)^[k] s).commandeDirection = (s.execute c t.texte).commandeDirection :=
    congrArg Ordres.direction hord
  refine ⟨by rw [isr_ordres, isr_ordres, hord], by rw [isr_m1Speed, isr_m1Speed, hfr],
    by rw [gaz_isr, gaz_isr, hvar], fun hv => ?_, fun v hv => ?_⟩
  · have h1 := dir_iterate_none hv c s 1
    rw [Function.iterate_one] at h1
    rw [isr_volant, isr_volant, hdir, dir_iterate_none hv, h1]
  · have hordre : OrdreDirection v := ordreDirection_ordreVolant hv
    have hsomme : (((Sketch.execute c t.texte)^[k] s).dir.erreurSommeP + Direction.erreur v c.potar).toInt =
        (s.dir.erreurSommeP.toInt + (k + 1) * ecart (v, c.potar)).bmod (2 ^ 16) := by
      rw [Int16.toInt_add, dir_iterate hv, hordre.erreur, Int.bmod_add_bmod, add_mul, one_mul, add_assoc]
    rw [isr_volant, hdir, direction_execute hv, hordre.pwm, Direction.commandeReelle, hsomme]

/-- `D` at half range three times, the sensor at 130: 5 * 20 and 3/10 of four times 20. -/
theorem repetition_D50 : ((Sketch.setup .atmega328P).repete ⟨0, 130⟩ trameD50 3).volant.toInt = 124 := by
  obtain ⟨-, -, -, -, -, h⟩ := repetition (Sketch.setup .atmega328P) trameD50 (k := 3) (by decide) ⟨0, 130⟩
  exact (h 150 (by decide +kernel)).trans (by decide +kernel)

/-- `D` at half range, received twice after `setup` with the sensor at 130: the interrupt gives
the steering 118 instead of 112. -/
theorem not_repetition_neutre : ¬ ∀ m, (machine .atmega328P).Reach m → ∀ t : Trame, Connu t.texte →
    ∀ k, 1 ≤ k → ∀ c, MemesSorties (m.sketch.repete c t k) (m.sketch.repete c t 1) := by
  intro h
  have hv := (h (machine .atmega328P).init Sys.Reach.init trameD50 (.inl rfl) 2 (by decide) ⟨0, 130⟩).volant
  revert hv
  decide +kernel

end ICar
