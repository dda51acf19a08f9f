import ICar.Proof.AncienFrein

/-!
# The earlier steering

In every run the sketch does what `directionEntiere` does with its command modulo 2^16 (`modulo`).
Bytes that are not digits can give orders that wrap. While only digits come and no block is cut
short, the command is exact: an order is from 0 to 990, and thirty times its error fits
(`loop_exact`). `ancienne_direction` states both.
-/

namespace ICar

open FixedWidth

variable {mcu : Mcu} {s : AncienDirection} {d : DirectionEntiere}

namespace AncienDirection

/-- **No order wraps**, whatever its two bytes. -/
theorem toInt_Consigne (lu : Option (ℕ → Int8)) (memo : Int16) :
    (Consigne lu memo).toInt = lu.elim memo.toInt dizaines := by
  cases lu with
  | none => rfl
  | some c =>
    obtain ⟨h0, h0lo, h0hi⟩ := toInt_chiffre (c 0)
    obtain ⟨-, h1lo, h1hi⟩ := toInt_chiffre (c 1)
    have h10 : (10 : Int16).toInt = 10 := by decide
    have h48 : (48 : Int16).toInt = 48 := by decide
    have hd : (((c 0).toInt16 - 48) * 10).toInt = ((c 0).toInt - 48) * 10 := by
      rw [toInt_mul] <;> rw [h10, h0]
      constructor <;> omega
    have hdu : (((c 0).toInt16 - 48) * 10 + (c 1).toInt16).toInt = ((c 0).toInt - 48) * 10 + (c 1).toInt := by
      rw [toInt_add] <;> rw [hd, Int8.toInt_toInt16]
      constructor <;> omega
    have hv : (((c 0).toInt16 - 48) * 10 + (c 1).toInt16 - 48).toInt =
        ((c 0).toInt - 48) * 10 + (c 1).toInt - 48 := by
      rw [toInt_sub] <;> rw [hdu, h48]
      constructor <;> omega
    have hk : ((((c 0).toInt16 - 48) * 10 + (c 1).toInt16 - 48) * 10).toInt =
        (((c 0).toInt - 48) * 10 + (c 1).toInt - 48) * 10 := by
      rw [toInt_mul] <;> rw [hv, h10]
      constructor <;> omega
    show ((((c 0).toInt16 - 48) * 10 + (c 1).toInt16 - 48) * 10).toInt = dizaines c
    rw [hk]
    unfold dizaines
    ring

/-- What the sketch keeps of the controller. -/
structure Represente (s : AncienDirection) (d : DirectionEntiere) : Prop where
  ordre : s.consigne.toInt = d.ordre
  volant : (s.board.pin variateur).duty.toInt = d.volant

/-- The command keeps the proportional term only, modulo 2^16. -/
theorem toInt_commande (k : Int16) (potar : Adc) (somme delta : Int16) :
    ((k - potar.toInt16) * kp + somme * ki + delta * kd).toInt = (30 * (k.toInt - potar.val)).bmod (2 ^ 16) := by
  have h30 : kp.toInt = 30 := by decide
  have hzero (x : Int16) : x * 0 = 0 := Int16.mul_zero
  unfold ki kd
  rw [hzero, hzero, Int16.add_zero, Int16.add_zero, Int16.toInt_mul, h30, Int16.toInt_sub, toInt_adc,
    Int.bmod_mul_bmod, mul_comm]

/-- **One turn.** -/
theorem Represente.loop (h : Represente s d) (lu : Option (ℕ → Int8)) (potar : Adc) :
    Represente (AncienDirection.loop lu potar s) (d.loop (fun n => n.bmod (2 ^ 16)) lu potar) := by
  have hk : (Consigne lu s.consigne).toInt = lu.elim d.ordre dizaines := by rw [toInt_Consigne, h.ordre]
  have hval (v : Int16) : Consigne lu s.consigne = v ↔ lu.elim d.ordre dizaines = v.toInt := by
    rw [← hk]
    exact Int16.toInt_inj.symm
  have h0 := hval 0
  have h10 := hval 10
  unfold AncienDirection.loop DirectionEntiere.loop DirectionEntiere.pwm
  dsimp only
  by_cases hz : lu.elim d.ordre dizaines = 0
  · rw [if_pos (h0.2 hz), if_pos hz]
    refine ⟨hk, ?_⟩
    show ((Board.analogWrite 10 0 _).pin 10).duty.toInt = 0
    rw [Board.analogWrite_duty]
    rfl
  · rw [if_neg fun hc => hz (h0.1 hc), if_neg hz]
    by_cases ht : lu.elim d.ordre dizaines = 10
    · rw [if_pos (h10.2 ht), if_pos ht]
      refine ⟨hk, ?_⟩
      unfold unlock
      rw [Function.iterate_succ_apply']
      show ((Board.analogWrite 10 65 _).pin 10).duty.toInt = 65
      rw [Board.analogWrite_duty]
      rfl
    · rw [if_neg fun hc => ht (h10.1 hc), if_neg ht]
      refine ⟨hk, ?_⟩
      unfold asservissement
      show ((Board.analogWrite 10 _ _).pin 10).duty.toInt = _
      rw [Board.analogWrite_duty, toInt_clamp (by decide), toInt_commande, hk]
      rfl

/-- **The earlier steering computes its controller modulo 2^16**, in every run: any bytes, blocks
cut anywhere, any readings. -/
theorem modulo (mcu : Mcu) : (machine mcu).Bisim (directionEntiere fun n => n.bmod (2 ^ 16))
    fun s t => Represente s.prog t.prog ∧ s.attente = t.attente ∧ s.lectures = t.lectures :=
  Blocs.bisim ⟨rfl, by cases mcu <;> rfl⟩ fun lu potar _ _ h => h.loop lu potar

/-! ## Orders of two digits -/

/-- A digit character. -/
def EstChiffre (c : Int8) : Prop := 48 ≤ c.toInt ∧ c.toInt ≤ 57

instance (c : Int8) : Decidable (EstChiffre c) := by unfold EstChiffre; infer_instance

/-- An order of two digits is one of 0, 10, ..., 990, and its error fits thirty times. -/
theorem loop_exact {d : DirectionEntiere} (hd : 0 ≤ d.ordre ∧ d.ordre ≤ 990) {lu : Option (ℕ → Int8)}
    (hlu : ∀ b ∈ lu, EstChiffre (b 0) ∧ EstChiffre (b 1)) (potar : Adc) :
    (0 ≤ (d.loop (fun n => n.bmod (2 ^ 16)) lu potar).ordre ∧
      (d.loop (fun n => n.bmod (2 ^ 16)) lu potar).ordre ≤ 990) ∧
    d.loop id lu potar = d.loop (fun n => n.bmod (2 ^ 16)) lu potar := by
  have hk : 0 ≤ lu.elim d.ordre dizaines ∧ lu.elim d.ordre dizaines ≤ 990 := by
    cases lu with
    | none => exact hd
    | some b =>
      obtain ⟨⟨h0, h0'⟩, h1, h1'⟩ := hlu b rfl
      show 0 ≤ dizaines b ∧ dizaines b ≤ 990
      unfold dizaines
      omega
  refine ⟨hk, ?_⟩
  have hp := potar.isLt
  have hfit : (30 * (lu.elim d.ordre dizaines - (potar.val : ℤ))).bmod (2 ^ 16) =
      30 * (lu.elim d.ordre dizaines - (potar.val : ℤ)) := bmod_of_fits (by constructor <;> omega)
  unfold DirectionEntiere.loop DirectionEntiere.pwm
  dsimp only
  rw [hfit]
  rfl

/-- **The earlier steering.** In every run it does what the controller does with its command modulo
2^16; and what the controller does without machine arithmetic, if only digits have come and no
block has been cut short. -/
theorem ancienne_direction {es : List (Blocs.Ev Int8 Adc)} {s : Blocs.Etat Int8 AncienDirection}
    (h : (machine mcu).run (machine mcu).init es = some s) :
    (∃ t, (directionEntiere fun n => n.bmod (2 ^ 16)).run (directionEntiere fun n => n.bmod (2 ^ 16)).init es = some t ∧
      Represente s.prog t.prog) ∧
    ((∀ l ∈ s.blocs, l.length = 2) → (∀ c ∈ Blocs.recus es, EstChiffre c) →
      ∃ t, (directionEntiere id).run (directionEntiere id).init es = some t ∧ Represente s.prog t.prog) := by
  obtain ⟨t, ht, hR, -, hlect⟩ : ∃ t, (directionEntiere fun n => n.bmod (2 ^ 16)).run
      (directionEntiere fun n => n.bmod (2 ^ 16)).init es = some t ∧ Represente s.prog t.prog ∧
        s.attente = t.attente ∧ s.lectures = t.lectures := by
    rcases Sys.rel_cases ((modulo mcu).run es) with ⟨hM, -⟩ | ⟨s', t, hM, hN, hst⟩ <;> rw [h] at hM <;> cases hM
    exact ⟨t, hN, hst⟩
  refine ⟨⟨t, ht, hR⟩, fun hw hd => ⟨t, ?_, hR⟩⟩
  have harrays : ∀ l ∈ t.lectures, EstChiffre (l.tableau 0) ∧ EstChiffre (l.tableau 1) := by
    rw [← hlect]
    intro l hl
    obtain ⟨i, hi, rfl⟩ := List.getElem_of_mem hl
    exact ⟨hd _ (List.mem_of_getElem? (Blocs.tableau_recus h hw hi (by decide))),
      hd _ (List.mem_of_getElem? (Blocs.tableau_recus h hw hi (by decide)))⟩
  exact (Blocs.accord (I := fun d => 0 ≤ d.ordre ∧ d.ordre ≤ 990) (P := fun b => EstChiffre (b 0) ∧ EstChiffre (b 1))
    ⟨le_rfl, by decide⟩ (fun lu potar d hlu hI => loop_exact hI hlu potar) ht harrays).1

/-- The order `50`, the wheel at 480: the command is 600, limited to 245. -/
theorem ancienne_direction_50 : ∃ s, (machine .atmega328P).run (machine .atmega328P).init
      [.arrive 53, .arrive 48, .tour [] (fun _ => 0) 480] = some s ∧ (s.prog.board.pin variateur).duty = 245 := by
  have hrun : (machine .atmega328P).run (machine .atmega328P).init
      [.arrive 53, .arrive 48, .tour [] (fun _ => 0) 480] = some _ := rfl
  have hrecus : Blocs.recus [.arrive 53, .arrive 48, .tour [] (fun _ => (0 : Int8)) (480 : Adc)] = [53, 48] := rfl
  obtain ⟨t, ht, hR⟩ := (ancienne_direction hrun).2 (by decide) (by rw [hrecus]; decide +kernel)
  cases ht
  exact ⟨_, hrun, Int16.toInt_inj.1 (hR.volant.trans (by decide))⟩

end AncienDirection

end ICar
