import ICar.Proof.AncienFrein

/-!
# The earlier throttle

`ancien_variateur`: in every state that bytes and turns of the loop can reach, the contact, the
clutch and the ground are registers, which hold what the last frame to write them wrote; the order is that of
the last frame, and the PWM value is half of it. A frame without an order, a lock and an
initialisation give the order 0. Above 311 the value is 55, not the maximum of 155.
-/

namespace ICar

open FixedWidth

variable {mcu : Mcu} {s : AncienVariateur} {c : ℕ → Int8} {b : Board}

namespace AncienVariateur

/-! ## What a frame writes -/

/-- What a field writes. -/
def marque (m1 m2 : Char) (i : ℕ) (c : ℕ → Int8) : Option Level :=
  if c i = car m1 ∧ c (i + 1) = car m2 then some (if c (i + 2) = car '1' then .LOW else .HIGH) else none

/-- The initialisation. -/
def EstInit (c : ℕ → Int8) : Prop := c 0 = car 'i' ∧ c 1 = car 'n' ∧ c 2 = car 'i' ∧ c 3 = car 't'

instance (c : ℕ → Int8) : Decidable (EstInit c) := by unfold EstInit; infer_instance

/-- What a frame writes to the contact `FS_pin`. -/
def contact (c : ℕ → Int8) : Option Level :=
  if c 0 = car 'L' ∨ EstInit c then some .LOW else marque 'F' 'S' 0 c

/-- What it writes to the clutch. -/
def embrayage (c : ℕ → Int8) : Option Level := if EstInit c then some .HIGH else marque 'E' 'M' 3 c

/-- What it writes to the ground. -/
def masse (c : ℕ → Int8) : Option Level := if EstInit c then some .LOW else marque 'M' 'A' 6 c

/-- The order it gives. -/
def ordreTrame (c : ℕ → Int8) : ℤ :=
  if c 0 = car 'L' ∨ EstInit c then 0
  else if c 9 = car 'C' ∧ c 10 = car 'D' then 10 * ((c 11).toInt - 48) + ((c 12).toInt - 48) else 0

/-- The PWM value of an order. -/
def pwm (k : ℤ) : ℤ := if k < 0 then 0 else if 312 ≤ k then 55 else k / 2

theorem champ_pin (m1 m2 : Char) (i p : ℕ) (c : ℕ → Int8) (b : Board) :
    (champ m1 m2 i p c b).pin p = (marque m1 m2 i c).getD (b.pin p) := by
  unfold champ marque
  split
  · split <;> exact Board.digitalWrite_self ..
  · rfl

theorem champ_pin_of_ne (m1 m2 : Char) (i : ℕ) (c : ℕ → Int8) (b : Board) {p q : ℕ} (h : q ≠ p) :
    (champ m1 m2 i p c b).pin q = b.pin q := by
  unfold champ
  split
  · split <;> exact Board.digitalWrite_pin_of_ne _ _ h
  · rfl

/-- The initialisation's pins. -/
theorem initvar_ecrit (b : Board) : (initvar b).pin fsPin = .LOW ∧ (initvar b).pin embrayagePlus = .HIGH ∧
    (initvar b).pin massPin = .LOW ∧ ∀ q, q ≠ fsPin → q ≠ embrayagePlus → q ≠ massPin → (initvar b).pin q = b.pin q := by
  refine ⟨rfl, rfl, rfl, fun q h7 h8 h4 => ?_⟩
  unfold initvar Variateur.initvar
  iterate 7 rw [Board.digitalWrite_pin_of_ne _ _ (by assumption)]

theorem lock_ecrit (b : Board) : (lock b).pin fsPin = .LOW ∧
    ∀ q, q ≠ fsPin → q ≠ vaccPin → (lock b).pin q = b.pin q := by
  refine ⟨rfl, fun q h7 h6 => ?_⟩
  unfold lock
  rw [Board.digitalWrite_pin_of_ne _ _ h7, Board.digitalWrite_pin_of_ne _ _ h6]

/-- The three fields write three pins. -/
theorem champs_pin (c : ℕ → Int8) (b : Board) :
    let b' := champ 'M' 'A' 6 massPin c (champ 'E' 'M' 3 embrayagePlus c (champ 'F' 'S' 0 fsPin c b))
    b'.pin fsPin = (marque 'F' 'S' 0 c).getD (b.pin fsPin) ∧
    b'.pin embrayagePlus = (marque 'E' 'M' 3 c).getD (b.pin embrayagePlus) ∧
    b'.pin massPin = (marque 'M' 'A' 6 c).getD (b.pin massPin) := by
  refine ⟨?_, ?_, ?_⟩
  · rw [champ_pin_of_ne _ _ _ _ _ (by decide), champ_pin_of_ne _ _ _ _ _ (by decide), champ_pin]
  · rw [champ_pin_of_ne _ _ _ _ _ (by decide), champ_pin, champ_pin_of_ne _ _ _ _ _ (by decide)]
  · rw [champ_pin, champ_pin_of_ne _ _ _ _ _ (by decide), champ_pin_of_ne _ _ _ _ _ (by decide)]

/-- The value of a frame's two digits, or of any other bytes there. -/
theorem toInt_valeur (c : ℕ → Int8) :
    (((c 11).toInt16 - 48) * 10 + (c 12).toInt16 - 48).toInt = 10 * ((c 11).toInt - 48) + ((c 12).toInt - 48) := by
  obtain ⟨h0, h0lo, h0hi⟩ := toInt_chiffre (c 11)
  obtain ⟨-, h1lo, h1hi⟩ := toInt_chiffre (c 12)
  have h10 : (10 : Int16).toInt = 10 := by decide
  have h48 : (48 : Int16).toInt = 48 := by decide
  have hd : (((c 11).toInt16 - 48) * 10).toInt = ((c 11).toInt - 48) * 10 := by
    rw [toInt_mul] <;> rw [h10, h0]
    constructor <;> omega
  have hdu : (((c 11).toInt16 - 48) * 10 + (c 12).toInt16).toInt = ((c 11).toInt - 48) * 10 + (c 12).toInt := by
    rw [toInt_add] <;> rw [hd, Int8.toInt_toInt16]
    constructor <;> omega
  rw [toInt_sub] <;> rw [hdu, h48]
  · ring
  · constructor <;> omega

/-- **What reading a frame writes.** -/
theorem USB_some (c : ℕ → Int8) (memo : Int16) (b : Board) :
    (USB (some c) memo b).1.toInt = ordreTrame c ∧
    (USB (some c) memo b).2.pin fsPin = (contact c).getD (b.pin fsPin) ∧
    (USB (some c) memo b).2.pin embrayagePlus = (embrayage c).getD (b.pin embrayagePlus) ∧
    (USB (some c) memo b).2.pin massPin = (masse c).getD (b.pin massPin) := by
  obtain ⟨hfs, hem, hma⟩ := champs_pin c b
  unfold USB ordreTrame contact embrayage masse
  dsimp only
  generalize champ 'M' 'A' 6 massPin c (champ 'E' 'M' 3 embrayagePlus c (champ 'F' 'S' 0 fsPin c b)) = b' at hfs hem hma ⊢
  by_cases hL : c 0 = car 'L'
  · -- a lock: the fields but the contact are taken
    have hI : ¬ EstInit c := fun h => absurd (hL.symm.trans h.1) (by decide)
    obtain ⟨hlfs, hlock⟩ := lock_ecrit b'
    rw [if_pos (Or.inl hL), if_pos (Or.inl hL), if_neg hI, if_neg hI, if_pos hL]
    unfold EstInit at hI
    rw [if_neg hI]
    refine ⟨rfl, hlfs, ?_, ?_⟩
    · rw [hlock _ (by decide) (by decide), hem]
    · rw [hlock _ (by decide) (by decide), hma]
  · by_cases hI : EstInit c
    · -- an initialisation
      obtain ⟨hifs, hiem, hima, -⟩ := initvar_ecrit b'
      rw [if_pos (Or.inr hI), if_pos (Or.inr hI), if_pos hI, if_pos hI, if_neg hL]
      unfold EstInit at hI
      rw [if_pos hI]
      exact ⟨rfl, hifs, hiem, hima⟩
    · have hno : ¬ (c 0 = car 'L' ∨ EstInit c) := not_or.2 ⟨hL, hI⟩
      rw [if_neg hno, if_neg hno, if_neg hI, if_neg hI, if_neg hL]
      unfold EstInit at hI
      rw [if_neg hI]
      refine ⟨?_, hfs, hem, hma⟩
      dsimp only
      split
      · exact toInt_valeur c
      · rfl

/-! ## The PWM value -/

/-- A half, truncated. -/
theorem truncQ_half {k : ℤ} (hk : 0 ≤ k) : truncQ ((k : ℚ) / 2) = k / 2 := by
  have hfloor : ⌊(k : ℚ) / (2 : ℕ)⌋ = k / (2 : ℕ) := Rat.floor_intCast_div_natCast k 2
  have hnum : 0 ≤ ((k : ℚ) / 2).num := Rat.num_nonneg.2 (by positivity)
  unfold truncQ
  rw [Int.tdiv_eq_ediv_of_nonneg hnum, ← Rat.floor_def]
  exact_mod_cast hfloor

/-- **Half of the order**, truncated and limited. -/
theorem toInt_pwm (k : Int16) (a : Asserv) :
    (if (a.asservissement gains k).1 < 0 then 0
      else if (a.asservissement gains k).1 > 155 then 55 else (a.asservissement gains k).1 : Int16).toInt = pwm k.toInt := by
  have hval : a.valeur gains k = (k.toInt : ℚ) / 2 := by
    simp [Asserv.valeur, gains]
    ring
  have hlo := k.le_toInt
  have hhi := k.toInt_lt
  have hlo' : (-2 ^ 15 : ℚ) ≤ k.toInt := by exact_mod_cast hlo
  have hhi' : (k.toInt : ℚ) < 2 ^ 15 := by exact_mod_cast hhi
  have hv : (a.asservissement gains k).1.toInt = truncQ ((k.toInt : ℚ) / 2) := by
    show (ofQ (a.valeur gains k)).toInt = _
    rw [hval]
    exact toInt_ofQ (fits_truncQ (by linarith) (by linarith))
  have hneg : (a.asservissement gains k).1 < 0 ↔ truncQ ((k.toInt : ℚ) / 2) < 0 := by
    rw [Int16.lt_iff_toInt_lt, hv]
    rfl
  have hgt : (a.asservissement gains k).1 > 155 ↔ 155 < truncQ ((k.toInt : ℚ) / 2) := by
    rw [gt_iff_lt, Int16.lt_iff_toInt_lt, hv]
    rfl
  have h0 : (0 : Int16).toInt = 0 := by decide
  have h55 : (55 : Int16).toInt = 55 := by decide
  unfold pwm
  by_cases hk : k.toInt < 0
  · have hk' : (k.toInt : ℚ) < 0 := by exact_mod_cast hk
    have hle : truncQ ((k.toInt : ℚ) / 2) ≤ 0 := truncQ_le (by push_cast; linarith)
    rw [if_pos hk]
    split
    · exact h0
    · rename_i hn
      rw [hneg] at hn
      rw [if_neg fun hc => absurd (hgt.1 hc) (by omega), hv]
      omega
  · have hhalf := truncQ_half (not_lt.1 hk)
    rw [hhalf] at hneg hgt hv
    rw [if_neg hk, if_neg fun hc => absurd (hneg.1 hc) (by omega)]
    by_cases hmax : 312 ≤ k.toInt
    · rw [if_pos (hgt.2 (by omega)), if_pos hmax]
      exact h55
    · rw [if_neg fun hc => absurd (hgt.1 hc) (by omega), if_neg hmax, hv]

/-! ## Every state -/

/-- **One turn.** -/
theorem loop_ecrit (lu : Option (ℕ → Int8)) (s : AncienVariateur) :
    (loop lu () s).consigneV = (USB lu s.consigneV s.board).1 ∧
    ((loop lu () s).board.pin vaccPin).duty.toInt = pwm (loop lu () s).consigneV.toInt ∧
    ∀ q, q ≠ vaccPin → (loop lu () s).board.pin q = (USB lu s.consigneV s.board).2.pin q := by
  refine ⟨rfl, ?_, fun q hq => ?_⟩
  · unfold loop asservissement
    dsimp only
    rw [Board.analogWrite_duty]
    exact toInt_pwm _ _
  · unfold loop asservissement
    exact Board.analogWrite_pin_of_ne _ _ hq

/-- **The earlier throttle**, after any run, whatever bytes come and however the blocks are cut:
the contact, the clutch and the ground hold what the last frame to write them wrote, or what
`setup` did; the order is that of the last frame; and the PWM value is half of it, 0 below 0 and 55
above 311. If no block is cut short, the frames are the bytes received, thirteen by thirteen. -/
theorem ancien_variateur {es : List (Blocs.Ev Int8 Unit)} {s : Blocs.Etat Int8 AncienVariateur}
    (hrun : (machine mcu).run (machine mcu).init es = some s) :
    s.prog.board.pin fsPin = (s.lectures.reverse.findSome? fun l => contact l.tableau).getD .LOW ∧
    s.prog.board.pin embrayagePlus = (s.lectures.reverse.findSome? fun l => embrayage l.tableau).getD .HIGH ∧
    s.prog.board.pin massPin = (s.lectures.reverse.findSome? fun l => masse l.tableau).getD .LOW ∧
    s.prog.consigneV.toInt = (s.lectures.reverse.findSome? fun l => some (ordreTrame l.tableau)).getD 0 ∧
    (s.prog.board.pin vaccPin).duty.toInt = pwm s.prog.consigneV.toInt ∧
    ((∀ l ∈ s.blocs, l.length = 13) → ∀ (i j : ℕ) (hi : i < s.lectures.length), j < 13 →
      (Blocs.recus es)[13 * i + j]? = some (s.lectures[i].tableau j)) := by
  have h : (machine mcu).Reach s := ⟨es, hrun⟩
  have hfs := Blocs.registre (f := fun s : AncienVariateur => s.board.pin fsPin) (g := contact)
    (fun _ s => (loop_ecrit none s).2.2 _ (by decide))
    (fun c _ s => ((loop_ecrit (some c) s).2.2 _ (by decide)).trans (USB_some c _ _).2.1) h
  have hem := Blocs.registre (f := fun s : AncienVariateur => s.board.pin embrayagePlus) (g := embrayage)
    (fun _ s => (loop_ecrit none s).2.2 _ (by decide))
    (fun c _ s => ((loop_ecrit (some c) s).2.2 _ (by decide)).trans (USB_some c _ _).2.2.1) h
  have hma := Blocs.registre (f := fun s : AncienVariateur => s.board.pin massPin) (g := masse)
    (fun _ s => (loop_ecrit none s).2.2 _ (by decide))
    (fun c _ s => ((loop_ecrit (some c) s).2.2 _ (by decide)).trans (USB_some c _ _).2.2.2) h
  have hk := Blocs.registre (f := fun s : AncienVariateur => s.consigneV.toInt) (g := fun c => some (ordreTrame c))
    (fun _ _ => rfl) (fun c _ s => (USB_some c s.consigneV s.board).1) h
  have hpwm := Blocs.inv_loop (I := fun s : AncienVariateur => (s.board.pin vaccPin).duty.toInt = pwm s.consigneV.toInt)
    (by cases mcu <;> decide) (fun lu _ s _ => (loop_ecrit lu s).2.1) h
  refine ⟨hfs.trans ?_, hem.trans ?_, hma.trans ?_, hk, hpwm, fun hw i j hi hj => Blocs.tableau_recus hrun hw hi hj⟩ <;>
    cases mcu <;> rfl

/-- A frame that puts the contact up and gives the order 42, in two parts. -/
theorem ancien_variateur_42 : ∃ s, (machine .atmega328P).run (machine .atmega328P).init
      [.arrive (car 'F'), .tour (['S', '0', 'E', 'M', '1', 'M', 'A', '0', 'C', 'D', '4', '2'].map car) (fun _ => 0) ()] =
        some s ∧
    s.prog.board.pin fsPin = .HIGH ∧ (s.prog.board.pin vaccPin).duty.toInt = 21 := by
  have hrun : (machine .atmega328P).run (machine .atmega328P).init
      [.arrive (car 'F'), .tour (['S', '0', 'E', 'M', '1', 'M', 'A', '0', 'C', 'D', '4', '2'].map car) (fun _ => 0) ()] =
        some _ := rfl
  obtain ⟨hfs, -, -, hk, hpwm, -⟩ := ancien_variateur hrun
  refine ⟨_, hrun, hfs.trans (by decide), hpwm.trans ?_⟩
  rw [hk]
  decide

end AncienVariateur

end ICar
