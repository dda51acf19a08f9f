import ICar.Proof.Arrivees
import ICar.Proof.Gaz

/-!
# The throttle as a register

When messages are executed without interruption, the PWM value on `vacc_pin` is the value of
a register that holds the last throttle order: a `V` message writes its value character, an
`S` message or an unknown one writes 0, and nothing else does (`registre_gaz`).

The invariant is that the pin carries the stored order (`Accorde`); the stored order is the
register's value by the orders of the messages (`variateur_ordresDe`).
-/

namespace ICar

open FixedWidth

variable {mcu : Mcu}

/-! ## The register -/

/-- A message that writes the register: a throttle order, a stop or an unknown header. -/
def EcritGaz (t : List Int8) : Prop := charAt t 0 = car 'V' ∨ charAt t 0 = car 'S' ∨ ¬ Connu t

instance (t : List Int8) : Decidable (EcritGaz t) := by unfold EcritGaz; infer_instance

/-- What it writes: the value character of a throttle order, 0 otherwise. -/
def valeurGaz (t : List Int8) : Int8 := if charAt t 0 = car 'V' then charAt t 1 else 0

/-- The register after a list of messages: what the last one to write it wrote, 0 before. -/
def registre (ts : List (List Int8)) : Int8 := (ts.reverse.find? fun t => EcritGaz t).elim 0 valeurGaz

theorem registre_concat (ts : List (List Int8)) (t : List Int8) :
    registre (ts ++ [t]) = if EcritGaz t then valeurGaz t else registre ts := by
  unfold registre
  rw [List.reverse_append, List.reverse_singleton, List.singleton_append, List.find?_cons]
  by_cases h : EcritGaz t <;> simp [h]

/-- The messages that write the register, by their order. -/
theorem ecritGaz_iff (t : List Int8) : EcritGaz t ↔
    match ordre t with
    | .variateur _ | .arret | .defaut => True
    | _ => False := by
  unfold EcritGaz
  rcases ordre_cases t with ⟨h, ho⟩ | ⟨h, ho⟩ | ⟨h, ho⟩ | ⟨h, ho⟩ | ⟨h, ho⟩ | ⟨h, ho⟩ <;> rw [ho] <;>
    simp only [iff_true, iff_false, not_or, not_not]
  · exact ⟨by rw [h]; decide, by rw [h]; decide, .inl h⟩
  · exact ⟨by rw [h]; decide, by rw [h]; decide, .inr (.inl h)⟩
  · exact .inl h
  · exact .inr (.inl h)
  · exact ⟨by rw [h]; decide, by rw [h]; decide, .inr (.inr (.inr (.inr h)))⟩
  · exact .inr (.inr h)

/-- **The throttle order a message leaves**: its own if it writes the register, the one before
otherwise. -/
theorem variateur_suite (o : Ordres) (t : List Int8) :
    (o.suite t).variateur = if EcritGaz t then (valeurGaz t).toInt16 else o.variateur := by
  have hE := ecritGaz_iff t
  unfold Ordres.suite parseMessage valeurGaz
  rw [branche_eq]
  rcases ordre_cases t with ⟨h, ho⟩ | ⟨h, ho⟩ | ⟨h, ho⟩ | ⟨h, ho⟩ | ⟨h, ho⟩ | ⟨h, ho⟩ <;> rw [ho] at hE ⊢
  · rw [if_neg hE.1]
    rfl
  · rw [if_neg hE.1]
    rfl
  · rw [if_pos (hE.2 trivial), if_pos h]
    rfl
  · rw [if_pos (hE.2 trivial), if_neg (by rw [h]; decide)]
    rfl
  · rw [if_neg hE.1]
    rfl
  · rw [if_pos (hE.2 trivial), if_neg fun hV => h (.inr (.inr (.inl hV)))]
    rfl

theorem variateur_ordresDe (ts : List (List Int8)) : (ordresDe ts).variateur = (registre ts).toInt16 := by
  induction ts using List.reverseRecOn with
  | nil => rfl
  | append_singleton ts t ih =>
    unfold ordresDe at ih ⊢
    rw [List.foldl_append, registre_concat]
    show (Ordres.suite _ t).variateur = _
    rw [variateur_suite, ih]
    split <;> rfl

/-! ## The pin -/

/-- The pin carries the stored order. -/
def Accorde (s : Sketch) : Prop := s.gaz = clamp 0 155 s.ordres.variateur

/-- An interrupt puts the pin at the stored order. -/
theorem accorde_isr (c : Sensors) (s : Sketch) : Accorde (s.isr c) := by
  unfold Accorde
  rw [isr_ordres]
  exact gaz_isr s c

/-- **A message executed without interruption leaves the pin at the stored order.** -/
theorem accorde_parseMessage {s : Sketch} (c : Sensors) (h : Accorde s) : Accorde (s.parseMessage c) := by
  unfold Accorde at h ⊢
  unfold Sketch.parseMessage ICar.parseMessage
  rw [branche_eq]
  cases ordre s.inputString <;>
    simp only [Ordre.stmts, arret, Sketch.execAll, List.cons_append, List.nil_append, List.foldl_cons,
      List.foldl_nil, exec_gaz, exec_ordres, Ordres.apres, h]

theorem accorde_lire {q : Suivi} (r : UInt8 × Sensors) (h : Accorde q.sketch) : Accorde (q.lire r).sketch := by
  simp only [Suivi.lire, Sketch.lireOctet]
  split
  · exact accorde_parseMessage r.2 h
  · exact h

theorem accorde_arrive {q : Suivi} (a : Arrivee) (h : Accorde q.sketch) : Accorde (q.arrive a).sketch := by
  cases a with
  | tick c => exact accorde_isr c q.sketch
  | serialEvent recus =>
    show Accorde (recus.foldl Suivi.lire q).sketch
    induction recus generalizing q with
    | nil => exact h
    | cons r recus ih => exact ih (accorde_lire r h)

theorem accorde_suivi (mcu : Mcu) (as : List Arrivee) : Accorde (suivi mcu as).sketch := by
  induction as using List.reverseRecOn with
  | nil =>
    unfold Accorde
    cases mcu <;> decide +kernel
  | append_singleton as a ih =>
    rw [suivi_concat]
    exact accorde_arrive a ih

/-- **The pin is the register.** -/
theorem gaz_suivi (mcu : Mcu) (as : List Arrivee) :
    (suivi mcu as).sketch.gaz = clamp 0 155 (registre (suivi mcu as).journal).toInt16 := by
  rw [← variateur_ordresDe, ← (suivi_trames mcu as).2]
  exact accorde_suivi mcu as

/-- **The throttle's output refines the register of its last order.** After every packet of
bytes and every interrupt of every run whose messages are executed without interruption, the
PWM value is the register's, or 0 if that is negative, and at most 155; an interrupt leaves it
as it is, and so does the next byte unless it ends a message that writes the register. -/
theorem registre_gaz (mcu : Mcu) (as : List Arrivee) :
    (suivi mcu as).sketch.gaz.toInt = max 0 (registre (suivi mcu as).journal).toInt ∧
    (suivi mcu as).sketch.gaz.toInt ≤ 155 ∧
    (∀ c, ((suivi mcu as).arrive (.tick c)).sketch.gaz = (suivi mcu as).sketch.gaz) ∧
    ∀ r, (∀ t, ((suivi mcu as).lire r).journal = (suivi mcu as).journal ++ [t] → ¬ EcritGaz t) →
      ((suivi mcu as).lire r).sketch.gaz = (suivi mcu as).sketch.gaz := by
  have hgaz := gaz_suivi mcu as
  refine ⟨?_, ?_, fun c => ?_, fun r hr => ?_⟩
  · rw [hgaz, toInt_gaz, Int8.toInt_toInt16]
    have hhi := (registre (suivi mcu as).journal).toInt_lt
    omega
  · rw [hgaz, toInt_gaz]
    omega
  · rw [← suivi_concat, gaz_suivi, hgaz, suivi_concat]
    rfl
  · -- the byte is an arrival of its own, so the pin is the register again
    have hlire : (suivi mcu as).lire r = suivi mcu (as ++ [.serialEvent [r]]) := by
      rw [suivi_concat]
      rfl
    have hreg : registre ((suivi mcu as).lire r).journal = registre (suivi mcu as).journal := by
      rcases lire_journal (suivi mcu as) r with hj | ⟨t, hj⟩
      · rw [hj]
      · rw [hj, registre_concat, if_neg (hr t hj)]
    rw [hlire, gaz_suivi, hgaz, ← hlire, hreg]

/-- The throttle order 30, then a steering order but for its newline. -/
def arriveesV : List Arrivee :=
  [.serialEvent [(86, .zero), (30, .zero), (10, .zero)], .serialEvent [(68, .zero), (50, .zero)]]

/-- The pin carries 30, and the steering order leaves it so. -/
theorem registre_gaz_V : (suivi .atmega328P arriveesV).sketch.gaz.toInt = 30 ∧
    ((suivi .atmega328P arriveesV).lire (10, ⟨0, 0⟩)).sketch.gaz = (suivi .atmega328P arriveesV).sketch.gaz := by
  obtain ⟨hval, -, -, hlire⟩ := registre_gaz .atmega328P arriveesV
  refine ⟨hval.trans rfl, hlire _ fun t ht => ?_⟩
  have hD : ((suivi .atmega328P arriveesV).lire (10, ⟨0, 0⟩)).journal =
    (suivi .atmega328P arriveesV).journal ++ [[68, 50, 10]] := rfl
  obtain rfl := List.singleton_inj.1 (List.append_cancel_left (hD.symm.trans ht))
  decide

end ICar
