import ICar.Proof.Faute

/-!
# The throttle's output

`gaz` is the duty cycle on `vacc_pin`. Only `variateur::commande` and the lock write the pin
(`exec_gaz`), and an interrupt puts the stored order on it again (`gaz_isr`).

`arret_coupe_iff`: an emergency stop cuts the throttle for good unless an interrupt falls
between its two last statements, the output and the stored order, while the order stored
before is positive: that order is then put back on the pin.
-/

namespace ICar

open FixedWidth

variable {mcu : Mcu} {m m' : Machine} {es : List Ev} {t : List Int8}

/-- The PWM value on `vacc_pin`. -/
def Sketch.gaz (s : Sketch) : Int16 := (s.board.pin Variateur.vaccPin).duty

/-! ## What the operations write -/

section Operations

variable (s : Sketch) (c : Sensors) (value : Int16)

@[simp] theorem dirCommande_gaz : (s.dirCommande value c).gaz = s.gaz := by
  unfold Sketch.gaz
  rw [dirCommande_pin s c value (by decide)]

@[simp] theorem frCommande_gaz : (s.frCommande value c).gaz = s.gaz := by
  unfold Sketch.gaz
  rw [frCommande_pin s c value (by decide) (by decide)]

@[simp] theorem varCommande_gaz : (s.varCommande value).gaz = clamp 0 155 value := by
  simp only [Sketch.gaz, Sketch.varCommande, Variateur.commande, Board.analogWrite_duty]

@[simp] theorem varLock_gaz : s.varLock.gaz = 0 := by
  simp only [Sketch.gaz, Sketch.varLock, Variateur.lock]
  rw [Board.digitalWrite_pin_of_ne _ _ (by decide), Board.digitalWrite_self]
  rfl

/-- **What a statement does to the throttle's output.** -/
theorem exec_gaz (i : Stmt) : (i.exec c s).gaz =
    match i with
    | .varCommande v => clamp 0 155 v
    | .varLock => 0
    | _ => s.gaz := by
  cases i with
  | dirCommande v => exact dirCommande_gaz s c v
  | frCommande v => exact frCommande_gaz s c v
  | varCommande v => exact varCommande_gaz s v
  | varLock => exact varLock_gaz s
  | _ => rfl

/-- **An interrupt puts the stored order on the pin.** -/
theorem gaz_isr : (s.isr c).gaz = clamp 0 155 s.commandeVariateur := by
  simp only [Sketch.isr, varCommande_gaz]

end Operations

theorem toInt_gaz (v : Int16) : (clamp 0 155 v).toInt = max 0 (min 155 v.toInt) := by
  rw [toInt_clamp (by decide)]
  rfl

/-- No power is given for an order that is not positive. -/
theorem clamp_gaz_eq_zero {v : Int16} : clamp 0 155 v = 0 ↔ v ≤ 0 := by
  have h0 : (0 : Int16).toInt = 0 := rfl
  rw [← Int16.toInt_inj, toInt_gaz, Int16.le_iff_toInt_le, h0]
  omega

/-! ## The statements of a message under execution -/

/-- Without byte, the statements that remain are the end of those that remained. -/
theorem reste_suffix (hes : Silent es) (h : (machine mcu).run m es = some m') : m'.reste <:+ m.reste := by
  refine Sys.run_inv (I := fun u => u.reste <:+ m.reste) (fun e he u u' hu hstep => ?_) List.suffix_rfl h
  rcases step_cases hstep with ⟨b, rfl, -, -⟩ | ⟨c, i, l, -, hr, rfl⟩ | ⟨c, -, rfl⟩
  · exact absurd he hes.not_octet
  · rw [hr] at hu
    exact (List.suffix_cons i l).trans hu
  · exact hu

/-- The last statement executed by a run without byte, and the interrupts after it. -/
theorem dernier_stmt (hes : Silent es) (h : (machine mcu).run m es = some m') (hne : m'.reste ≠ m.reste) :
    ∃ pre c ticks u i, es = pre ++ .stmt c :: ticks ∧ (∀ e ∈ ticks, e.isTick) ∧
      (machine mcu).run m pre = some u ∧ u.reste = i :: m'.reste ∧
      (machine mcu).step u (.stmt c) = some ⟨i.exec c u.sketch, m'.reste, u.journal⟩ ∧
      (machine mcu).run ⟨i.exec c u.sketch, m'.reste, u.journal⟩ ticks = some m' := by
  induction es using List.reverseRecOn generalizing m' with
  | nil =>
    simp only [Sys.run_nil, Option.some.injEq] at h
    exact absurd (congrArg Machine.reste h.symm) hne
  | append_singleton es e ih =>
    obtain ⟨u, hu, hlast⟩ := Sys.run_append_some.1 h
    have hstep : (machine mcu).step u e = some m' := by simpa using hlast
    rcases step_cases hstep with ⟨b, rfl, -, -⟩ | ⟨c, i, l, rfl, hr, rfl⟩ | ⟨c, rfl, rfl⟩
    · exact absurd (List.mem_append_right _ List.mem_cons_self) (hes.not_octet (b := b))
    · exact ⟨es, c, [], u, i, rfl, by simp, hu, hr, hstep, rfl⟩
    -- an interrupt at the end: the statement is before it
    · obtain ⟨pre, c', ticks, w, i, rfl, hticks, hpre, hw, hstmt, hrun⟩ := ih (silent_append.1 hes).1 hu hne
      refine ⟨pre, c', ticks ++ [.tick c], w, i, by simp, ?_, hpre, hw, hstmt, ?_⟩
      · intro e he
        rcases List.mem_append.1 he with he | he
        · exact hticks e he
        · rw [List.mem_singleton.1 he]
          trivial
      · exact Sys.run_append_some.2 ⟨u, hrun, rfl⟩

/-! ## The end of `arret()` -/

/-- The statements of a stop: those of `arret()`, after the lock of an unknown message. -/
theorem parseMessage_arret (ht : ExecuteArret t) :
    parseMessage t = arret ++ [.videInputString] ∨ parseMessage t = .varLock :: (arret ++ [.videInputString]) := by
  unfold parseMessage
  rw [branche_eq]
  rcases ht with ht | ht <;> rw [ht]
  · exact .inl rfl
  · exact .inr rfl

/-- The order to the throttle, its storage and the end of the message, in this order. -/
theorem fin_arret (ht : ExecuteArret t) {i : Stmt} {l : List Stmt} (h : (i :: l) <:+ parseMessage t) :
    (l = [.videInputString] → i = .commandeVariateur 0) ∧
    (l = [.commandeVariateur 0, .videInputString] → i = .varCommande 0) ∧
    (i = .commandeVariateur 0 → l = [.videInputString]) ∧
    (.commandeVariateur 0 ∈ l → ∀ v, i ≠ .commandeVariateur v) := by
  -- no statement of a stop comes twice, so the ends of the list are told apart by their heads
  rcases parseMessage_arret ht with hp | hp <;> rw [hp] at h <;>
    simp only [arret, List.cons_append, List.nil_append, List.suffix_cons_iff, List.cons.injEq,
      List.suffix_nil, reduceCtorEq, or_false] at h
  · rcases h with ⟨rfl, rfl⟩ | ⟨rfl, rfl⟩ | ⟨rfl, rfl⟩ | ⟨rfl, rfl⟩ | ⟨rfl, rfl⟩ | ⟨rfl, rfl⟩ | ⟨rfl, rfl⟩ <;> simp
  · rcases h with ⟨rfl, rfl⟩ | ⟨rfl, rfl⟩ | ⟨rfl, rfl⟩ | ⟨rfl, rfl⟩ | ⟨rfl, rfl⟩ | ⟨rfl, rfl⟩ | ⟨rfl, rfl⟩ | ⟨rfl, rfl⟩ <;>
      simp

/-- Until a stop stores its own order, the order stored before it stands. -/
theorem commandeVariateur_arret (hr : m.reste = parseMessage t) (ht : ExecuteArret t) (hes : Silent es)
    (h : (machine mcu).run m es = some m') (hc : .commandeVariateur 0 ∈ m'.reste) :
    m'.sketch.commandeVariateur = m.sketch.commandeVariateur := by
  -- only the storage of that order writes it, and it is still to come
  have key := Sys.run_inv (I := fun u => u.reste <:+ parseMessage t ∧
    (.commandeVariateur 0 ∈ u.reste → u.sketch.ordres.variateur = m.sketch.ordres.variateur))
    (fun e he u u' hu hstep => ?_) ⟨hr ▸ List.suffix_rfl, fun _ => rfl⟩ h
  · exact key.2 hc
  obtain ⟨hsuf, hord⟩ := hu
  rcases step_cases hstep with ⟨b, rfl, -, -⟩ | ⟨c, i, l, -, hr', rfl⟩ | ⟨c, -, rfl⟩
  · exact absurd he hes.not_octet
  · rw [hr'] at hsuf hord
    refine ⟨(List.suffix_cons i l).trans hsuf, fun hl => ?_⟩
    rw [exec_ordres, ← hord (List.mem_cons_of_mem _ hl)]
    have hi := (fin_arret ht hsuf).2.2.2 hl
    cases i with
    | commandeVariateur v => exact absurd rfl (hi v)
    | _ => rfl
  · refine ⟨hsuf, fun hl => ?_⟩
    rw [isr_ordres]
    exact hord hl

/-- An interrupt falls between the two last statements of `arret()`. -/
def TickEntre (mcu : Mcu) (m : Machine) (es : List Ev) : Prop :=
  ∃ es₁ c es₂ u, es = es₁ ++ .tick c :: es₂ ∧ (machine mcu).run m es₁ = some u ∧
    u.reste.head? = some (.commandeVariateur 0)

/-- The state a run of interrupts ends in: the order stored before it is on the pin. -/
theorem gaz_ticks (hes : ∀ e ∈ es, e.isTick) (hne : es ≠ []) (h : (machine mcu).run m es = some m') :
    m'.sketch.gaz = clamp 0 155 m.sketch.commandeVariateur := by
  rcases List.eq_nil_or_concat' es with hnil | ⟨es, e, rfl⟩
  · exact absurd hnil hne
  obtain ⟨u, hu, hlast⟩ := Sys.run_append_some.1 h
  have hstep : (machine mcu).step u e = some m' := by simpa using hlast
  have hord : u.sketch.ordres = m.sketch.ordres := by
    refine Sys.run_inv (I := fun w => w.sketch.ordres = m.sketch.ordres) (fun e he w w' hw hstep => ?_) rfl hu
    rcases step_cases hstep with ⟨b, rfl, -, -⟩ | ⟨c, i, l, rfl, -, -⟩ | ⟨c, -, rfl⟩
    · exact (hes _ (List.mem_append_left _ he)).elim
    · exact (hes _ (List.mem_append_left _ he)).elim
    · rw [isr_ordres, hw]
  have hcv : u.sketch.commandeVariateur = m.sketch.commandeVariateur := congrArg Ordres.variateur hord
  rcases step_cases hstep with ⟨b, rfl, -, -⟩ | ⟨c, i, l, rfl, -, -⟩ | ⟨c, -, rfl⟩
  · exact (hes _ (List.mem_append_right _ List.mem_cons_self)).elim
  · exact (hes _ (List.mem_append_right _ List.mem_cons_self)).elim
  · rw [gaz_isr, hcv]

/-- Once the order 0 has been given, only the interrupts since then fall between. -/
theorem tickEntre_iff (hr : m.reste = parseMessage t) (ht : ExecuteArret t) {pre ticks : List Ev} {c : Sensors}
    {u w : Machine} (hes : Silent pre) (hpre : (machine mcu).run m pre = some u)
    (hu : u.reste = [.varCommande 0, .commandeVariateur 0, .videInputString])
    (hstmt : (machine mcu).step u (.stmt c) = some w)
    (hw : w.reste = [.commandeVariateur 0, .videInputString]) (hticks : ∀ e ∈ ticks, e.isTick) :
    TickEntre mcu m (pre ++ .stmt c :: ticks) ↔ ticks ≠ [] := by
  constructor
  · rintro ⟨es₁, c', es₂, v, he, hv, hhead⟩ rfl
    rcases List.eq_nil_or_concat' es₂ with rfl | ⟨es₂, e, rfl⟩
    · cases (List.append_inj' he rfl).2
    -- an interrupt before the order 0 meets more statements than remain at it
    rw [← List.cons_append, ← List.append_assoc] at he
    rw [(List.append_inj' he rfl).1] at hpre hes
    obtain ⟨hes₁, hes₂⟩ := silent_append.1 hes
    obtain ⟨v', hv', hrest⟩ := Sys.run_append_some.1 hpre
    cases hv.symm.trans hv'
    have hs1 := reste_suffix hes₁ hv
    have hs2 := reste_suffix hes₂ hrest
    cases hvr : v.reste with
    | nil =>
      rw [hvr] at hhead
      cases hhead
    | cons i l =>
      rw [hvr] at hhead hs1 hs2
      rw [hr] at hs1
      cases hhead
      rw [(fin_arret ht hs1).2.2.1 rfl, hu] at hs2
      exact absurd hs2.length_le (by decide)
  · intro hne
    cases ticks with
    | nil => exact absurd rfl hne
    | cons e ticks =>
      cases e with
      | octet b => exact (hticks _ List.mem_cons_self).elim
      | stmt c => exact (hticks _ List.mem_cons_self).elim
      | tick c' =>
        refine ⟨pre ++ [.stmt c], c', ticks, w, by simp, ?_, by rw [hw]; rfl⟩
        exact Sys.run_append_some.2 ⟨u, hpre, Sys.run_cons_some.2 ⟨w, hstmt, rfl⟩⟩

/-- **The output when `arret()` has stored its last order**: the order stored before it if an
interrupt fell between the two, none otherwise. -/
theorem gaz_arret (hr : m.reste = parseMessage t) (ht : ExecuteArret t) (hes : Silent es)
    (h : (machine mcu).run m es = some m') (hfin : m'.reste = [.commandeVariateur 0, .videInputString]) :
    (TickEntre mcu m es → m'.sketch.gaz = clamp 0 155 m.sketch.commandeVariateur) ∧
    (¬ TickEntre mcu m es → m'.sketch.gaz = 0) := by
  have hne : m'.reste ≠ m.reste := by
    rw [hfin, hr]
    rcases parseMessage_arret ht with hp | hp <;> rw [hp] <;> decide
  obtain ⟨pre, c, ticks, u, i, rfl, hticks, hpre, hu, hstmt, hrun⟩ := dernier_stmt hes h hne
  have hspre : Silent pre := (silent_append.1 hes).1
  have hi : i = .varCommande 0 := by
    have hsuf := reste_suffix hspre hpre
    rw [hu, hr, hfin] at hsuf
    exact (fin_arret ht hsuf).2.1 rfl
  subst hi
  have hcv := commandeVariateur_arret hr ht hspre hpre (by rw [hu, hfin]; simp)
  rw [hfin] at hrun hu hstmt
  rw [tickEntre_iff hr ht hspre hpre hu hstmt rfl hticks]
  refine ⟨fun hn => ?_, fun hn => ?_⟩
  · rw [gaz_ticks hticks hn hrun, ← hcv]
    rfl
  · rw [not_not.1 hn] at hrun
    simp only [Sys.run_nil, Option.some.injEq] at hrun
    rw [← hrun]
    exact varCommande_gaz _ 0

/-! ## After the stop -/

/-- The throttle is cut, and stays cut until the next throttle order is received. -/
def ArretCoupe (mcu : Mcu) (m : Machine) : Prop :=
  ∀ es m' nouveaux, (machine mcu).run m es = some m' → m'.journal = m.journal ++ nouveaux →
    (∀ t ∈ nouveaux, charAt t 0 ≠ car 'V') → m'.sketch.gaz = 0

/-- A statement that gives the throttle no order but 0. -/
def Stmt.Coupe (i : Stmt) : Prop := ∀ v, i = .varCommande v ∨ i = .commandeVariateur v → v = 0

theorem coupe_of_mem {i : Stmt} (ht : charAt t 0 ≠ car 'V') (hi : i ∈ parseMessage t) : i.Coupe := by
  unfold parseMessage at hi
  rw [branche_eq] at hi
  intro v hv
  cases ho : ordre t with
  | variateur b => exact absurd (ordre_variateur ho).1 ht
  | direction b => rcases hv with rfl | rfl <;> simp [ho, Ordre.stmts] at hi
  | frein b => rcases hv with rfl | rfl <;> simp [ho, Ordre.stmts] at hi
  | repos => rcases hv with rfl | rfl <;> simp [ho, Ordre.stmts] at hi
  | arret => rcases hv with rfl | rfl <;> simpa [ho, Ordre.stmts, arret] using hi
  | defaut => rcases hv with rfl | rfl <;> simpa [ho, Ordre.stmts, arret] using hi

/-- No power, and none to come from the statements that remain. -/
structure SansGaz (m : Machine) : Prop where
  gaz : m.sketch.gaz = 0
  ordre : m.sketch.ordres.variateur ≤ 0
  reste : ∀ i ∈ m.reste, i.Coupe

/-- Only a throttle message ends it. -/
theorem SansGaz.step {e : Ev} (hm : SansGaz m) (h : (machine mcu).step m e = some m')
    (hV : m'.journal = m.journal ∨ ∃ t, m'.journal = m.journal ++ [t] ∧ charAt t 0 ≠ car 'V') : SansGaz m' := by
  rcases step_cases h with ⟨b, rfl, hr, rfl⟩ | ⟨c, i, l, rfl, hr, rfl⟩ | ⟨c, rfl, rfl⟩
  · unfold Machine.octet at hV ⊢
    split at hV <;> rename_i hb
    · -- a message is handed over: its statements are to come
      rw [if_pos hb]
      refine ⟨hm.gaz, hm.ordre, fun i hi => ?_⟩
      rcases hV with hV | ⟨t, hV, ht⟩
      · exact absurd (congrArg List.length hV) (by simp)
      · obtain rfl := List.singleton_inj.1 (List.append_cancel_left hV)
        exact coupe_of_mem ht hi
    · rw [if_neg hb]
      exact ⟨hm.gaz, hm.ordre, hm.reste⟩
  · have hreste := hm.reste
    rw [hr] at hreste
    obtain ⟨hi, hl⟩ := List.forall_mem_cons.1 hreste
    refine ⟨?_, ?_, hl⟩
    · rw [exec_gaz]
      cases i with
      | varCommande v =>
        rw [hi v (.inl rfl)]
        rfl
      | varLock => rfl
      | _ => exact hm.gaz
    · rw [exec_ordres]
      cases i with
      | commandeVariateur v =>
        rw [hi v (.inr rfl)]
        exact Int16.le_refl 0
      | _ => exact hm.ordre
  · refine ⟨?_, ?_, hm.reste⟩
    · rw [gaz_isr]
      exact clamp_gaz_eq_zero.2 hm.ordre
    · rw [isr_ordres]
      exact hm.ordre

theorem SansGaz.run (hm : SansGaz m) (h : (machine mcu).run m es = some m') {nouveaux : List (List Int8)}
    (hj : m'.journal = m.journal ++ nouveaux) (hV : ∀ t ∈ nouveaux, charAt t 0 ≠ car 'V') : SansGaz m' := by
  induction es generalizing m nouveaux with
  | nil =>
    simp only [Sys.run_nil, Option.some.injEq] at h
    exact h ▸ hm
  | cons e es ih =>
    obtain ⟨u, hu, h⟩ := Sys.run_cons_some.1 h
    rcases journal_step hu with hju | ⟨t, hju⟩
    · exact ih (hm.step hu (.inl hju)) h (hju ▸ hj) hV
    · -- the message handed over is the first of the new ones
      obtain ⟨reste, hreste⟩ := journal_prefix h
      have hnew : nouveaux = t :: reste := by
        rw [← hreste, hju, List.append_assoc] at hj
        exact (List.append_cancel_left hj).symm
      rw [hnew] at hV
      obtain ⟨ht, hV⟩ := List.forall_mem_cons.1 hV
      exact ih (hm.step hu (.inr ⟨t, hju, ht⟩)) h hreste.symm hV

/-- **When an emergency stop cuts the throttle.** From the return of `arret()` on, whatever the
state in which the stop is received and wherever the interrupts fall: exactly when none falls
between its two last statements, or the order stored before the stop is not positive. -/
theorem arret_coupe_iff (hr : m.reste = parseMessage t) (ht : ExecuteArret t) (hes : Silent es) {c : Sensors}
    (h : (machine mcu).run m (es ++ [.stmt c]) = some m') (hfin : m'.reste = [.videInputString]) :
    ArretCoupe mcu m' ↔ ¬ TickEntre mcu m es ∨ m.sketch.commandeVariateur ≤ 0 := by
  obtain ⟨u, hu, hlast⟩ := Sys.run_append_some.1 h
  have hstep : (machine mcu).step u (.stmt c) = some m' := by simpa using hlast
  rcases step_cases hstep with ⟨b, hb, -, -⟩ | ⟨c', i, l, -, hru, rfl⟩ | ⟨c', hc, -⟩
  · cases hb
  · have hsuf := reste_suffix hes hu
    obtain rfl : l = [.videInputString] := hfin
    rw [hru, hr] at hsuf
    obtain rfl := (fin_arret ht hsuf).1 rfl
    obtain ⟨hyes, hno⟩ := gaz_arret hr ht hes hu hru
    constructor
    · -- the power at the return is the one left by the last interrupt
      intro hcoupe
      have h0 := hcoupe [] _ [] (Sys.run_nil _) (by simp) (by simp)
      rw [exec_gaz] at h0
      by_cases hentre : TickEntre mcu m es
      · right
        rw [hyes hentre] at h0
        exact clamp_gaz_eq_zero.1 h0
      · exact .inl hentre
    · -- no power at the return, and none to come before a throttle message
      intro hcond es' m'' nouveaux hrun hj hV
      have h0 : u.sketch.gaz = 0 := by
        by_cases hentre : TickEntre mcu m es
        · rw [hyes hentre]
          exact clamp_gaz_eq_zero.2 (hcond.resolve_left (not_not.2 hentre))
        · exact hno hentre
      have hsans : SansGaz ⟨Stmt.exec c' (.commandeVariateur 0) u.sketch, [.videInputString], u.journal⟩ := by
        refine ⟨h0, Int16.le_refl 0, fun i hi => ?_⟩
        rw [List.mem_singleton.1 hi]
        rintro v (hv | hv) <;> cases hv
      exact (hsans.run hrun hj hV).gaz
  · cases hc

/-! ## A stop after a throttle order -/

/-- The throttle order 30, executed, and the message `S` received. -/
def recuVS : Machine :=
  (⟨(machine .atmega328P).init.sketch.execAll .zero [.varCommande 30, .commandeVariateur 30], [],
    [[86, 30, 10]]⟩ : Machine).octet 83 |>.octet 10

theorem reach_recuVS : (machine .atmega328P).Reach recuVS :=
  ⟨[.octet 86, .octet 30, .octet 10, .stmt ⟨0, 0⟩, .stmt ⟨0, 0⟩, .stmt ⟨0, 0⟩, .octet 83, .octet 10], rfl⟩

/-- The run of a stop up to the storage of its last order: an interrupt, then five statements. -/
def avantVS : List Ev := .tick .zero :: List.replicate 4 (.stmt .zero) ++ [.stmt .zero]

/-- An interrupt before the order 0 to the throttle: the throttle is cut. -/
theorem arret_coupe_VS : ∃ m', (machine .atmega328P).run recuVS (avantVS ++ [.stmt ⟨0, 0⟩]) = some m' ∧
    ArretCoupe .atmega328P m' := by
  have hr : recuVS.reste = parseMessage [83, 10] := rfl
  have ht : ExecuteArret [83, 10] := .inl rfl
  have hes : Silent avantVS := rfl
  obtain ⟨m', hrun, hfin⟩ : ∃ m', (machine .atmega328P).run recuVS (avantVS ++ [.stmt ⟨0, 0⟩]) = some m' ∧
    m'.reste = [.videInputString] := ⟨_, rfl, rfl⟩
  have hiff : TickEntre .atmega328P recuVS avantVS ↔ ([] : List Ev) ≠ [] :=
    tickEntre_iff hr ht (silent_append.1 hes).1 rfl rfl rfl rfl (by simp)
  exact ⟨m', hrun, (arret_coupe_iff hr ht hes hrun hfin).2 (.inl (hiff.not.2 (by simp)))⟩

/-- An interrupt right after it: the throttle is driven at 30 when `arret()` returns. -/
theorem not_arret_coupe_VS : (machine .atmega328P).Reach recuVS ∧ recuVS.reste = parseMessage [83, 10] ∧
    ∃ m', (machine .atmega328P).run recuVS (avantVS ++ [.tick ⟨0, 0⟩, .stmt ⟨0, 0⟩]) = some m' ∧
      m'.reste = [.videInputString] ∧ m'.sketch.gaz = 30 ∧ ¬ ArretCoupe .atmega328P m' := by
  obtain ⟨m', hrun, hfin, hgaz⟩ : ∃ m', (machine .atmega328P).run recuVS
      (avantVS ++ [.tick ⟨0, 0⟩, .stmt ⟨0, 0⟩]) = some m' ∧ m'.reste = [.videInputString] ∧ m'.sketch.gaz = 30 :=
    ⟨_, rfl, rfl, by decide +kernel⟩
  refine ⟨reach_recuVS, rfl, m', hrun, hfin, hgaz, fun h => ?_⟩
  have h0 := h [] m' [] rfl (by simp) (by simp)
  rw [hgaz] at h0
  exact absurd h0 (by decide)

end ICar
