import ICar.Proof.Broches
import ICar.Proof.Frein

/-!
# The fault of the throttle

A message with an unknown header puts the throttle in fault (`var.lock()`): its mark
`isInit` is false, and its `FS_pin` is low, which cuts the power. Neither lasts.

* `faute_jamais`: the mark is set again by the first call of `variateur::commande`, which
  `arret()` makes itself and which the interrupt makes too.
* `interlock`: `FS_pin` is also the direction pin of the brake's shield, which the next brake
  regulation raises when it reads more pressure than its order.
-/

namespace ICar

variable {mcu : Mcu} {m m' : Machine} {es : List Ev} {t : List Int8}

/-! ## The statements and interrupts after a message -/

def Ev.isTick : Ev → Prop
  | .tick _ => True
  | _ => False

def Ev.isStmt : Ev → Prop
  | .stmt _ => True
  | _ => False

/-- A run without byte starts with interrupts, up to its first statement. -/
theorem premier_stmt (hes : Silent es) : (∀ e ∈ es, e.isTick) ∨
    ∃ ticks c reste, es = ticks ++ .stmt c :: reste ∧ ∀ e ∈ ticks, e.isTick := by
  induction es with
  | nil => exact .inl fun e he => absurd he List.not_mem_nil
  | cons e es ih =>
    cases e with
    | octet b => exact absurd List.mem_cons_self (hes.not_octet (b := b))
    | stmt c => exact .inr ⟨[], c, es, rfl, fun e he => absurd he List.not_mem_nil⟩
    | tick c =>
      rcases ih hes with hall | ⟨ticks, c', reste, rfl, hticks⟩
      · exact .inl (List.forall_mem_cons.2 ⟨trivial, hall⟩)
      · exact .inr ⟨.tick c :: ticks, c', reste, rfl, List.forall_mem_cons.2 ⟨trivial, hticks⟩⟩

/-- Interrupts execute no statement of the message. -/
theorem reste_ticks (hes : ∀ e ∈ es, e.isTick) (h : (machine mcu).run m es = some m') : m'.reste = m.reste := by
  refine Sys.run_inv (I := fun u => u.reste = m.reste) (fun e he u u' hu hstep => ?_) rfl h
  rcases step_cases hstep with ⟨b, rfl, -, -⟩ | ⟨c, i, l, rfl, -, -⟩ | ⟨c, rfl, rfl⟩
  · exact (hes _ he).elim
  · exact (hes _ he).elim
  · exact hu

/-! ## The mark -/

/-- In no state between `var.lock()` and the next message is the mark set. -/
def FauteTient (mcu : Mcu) (m : Machine) : Prop :=
  ∀ es m', Silent es → (machine mcu).run m es = some m' → .varLock ∉ m'.reste → m'.sketch.var.isInit = false

/-- Out of fault, with no lock to come, the throttle stays so. -/
theorem arme_run (hes : Silent es) (h : (machine mcu).run m es = some m')
    (hm : m.sketch.vue.isInit = true ∧ .varLock ∉ m.reste) :
    m'.sketch.vue.isInit = true ∧ .varLock ∉ m'.reste := by
  refine Sys.run_inv (I := fun u => u.sketch.vue.isInit = true ∧ .varLock ∉ u.reste)
    (fun e he u u' hu hstep => ?_) hm h
  rcases step_cases hstep with ⟨b, rfl, -, -⟩ | ⟨c, i, l, -, hr, rfl⟩ | ⟨c, -, rfl⟩
  · exact absurd he hes.not_octet
  · obtain ⟨hi, hl⟩ := hu
    rw [hr, List.mem_cons, not_or] at hl
    refine ⟨?_, hl.2⟩
    rw [exec_isInit]
    cases i with
    | varCommande v => rfl
    | varLock => exact absurd rfl hl.1
    | _ => exact hi
  · exact ⟨isr_isInit _ c, hu.2⟩

/-- **How long the mark lasts.** Until the first interrupt, or the next order given to the
throttle, whichever comes first. -/
theorem duree_faute {v : Int16} {l₂ : List Stmt} (hl₂ : .varLock ∉ l₂) : ∀ {l₁ : List Stmt} {es : List Ev}
    {m : Machine}, (∀ i ∈ l₁, i ≠ .varLock ∧ ∀ w, i ≠ .varCommande w) → m.sketch.vue.isInit = false →
    m.reste = l₁ ++ .varCommande v :: l₂ → Silent es → (machine mcu).run m es = some m' →
    (m'.sketch.vue.isInit = false ↔ (∀ e ∈ es, e.isStmt) ∧ es.length ≤ l₁.length) := by
  -- by induction on the run, `l₁` being what remains before the order
  intro l₁ es
  induction es generalizing l₁ with
  | nil =>
    intro m _ hf _ _ h
    simp only [Sys.run_nil, Option.some.injEq] at h
    simp [← h, hf]
  | cons e es ih =>
    intro m hl₁ hf hr hes h
    obtain ⟨u, hu, h⟩ := Sys.run_cons_some.1 h
    rcases step_cases hu with ⟨b, rfl, -, -⟩ | ⟨c, i, l, rfl, hr', rfl⟩ | ⟨c, rfl, rfl⟩
    · exact absurd List.mem_cons_self hes.not_octet
    · rw [hr'] at hr
      cases l₁ with
      | nil =>
        -- the order itself: the mark is set, and stays so
        obtain ⟨rfl, rfl⟩ := List.cons.inj hr
        have harme : (Stmt.exec c (.varCommande v) m.sketch).vue.isInit = true := exec_isInit ..
        have hes' : Silent es := hes
        have hfin := (arme_run hes' h ⟨harme, hl₂⟩).1
        simp [hfin]
      | cons j l₁ =>
        obtain ⟨rfl, rfl⟩ := List.cons.inj hr
        obtain ⟨hi, hl₁⟩ := List.forall_mem_cons.1 hl₁
        have hf' : (Stmt.exec c i m.sketch).vue.isInit = false := by
          rw [exec_isInit]
          cases i with
          | varCommande w => exact absurd rfl (hi.2 w)
          | varLock => exact absurd rfl hi.1
          | _ => exact hf
        rw [ih hl₁ hf' rfl hes h]
        simp [Ev.isStmt]
    · -- the interrupt gives the throttle its stored order
      have hlock : .varLock ∉ m.reste := by
        rw [hr, List.mem_append, List.mem_cons]
        rintro (hmem | hmem | hmem)
        · exact (hl₁ _ hmem).1 rfl
        · cases hmem
        · exact hl₂ hmem
      have hes' : Silent es := hes
      have hfin := (arme_run hes' h ⟨isr_isInit _ c, hlock⟩).1
      simp [hfin, Ev.isStmt]

/-- The four statements of `arret()` before its order to the throttle. -/
theorem inconnu_eq (ht : ¬ Connu t) : parseMessage t = .varLock ::
    ([.dirCommande 50, .commandeDirection 50, .frCommande 100, .commandeFrein 100] ++
      .varCommande 0 :: [.commandeVariateur 0, .videInputString]) := parseMessage_inconnu ht

/-- After the lock of an unknown message. -/
theorem faute_apres_lock (hr : m.reste = parseMessage t) (ht : ¬ Connu t) {ticks stmts : List Ev} {c : Sensors}
    (hticks : ∀ e ∈ ticks, e.isTick) (hes : Silent (ticks ++ .stmt c :: stmts))
    (h : (machine mcu).run m (ticks ++ .stmt c :: stmts) = some m') :
    m'.sketch.vue.isInit = false ↔ (∀ e ∈ stmts, e.isStmt) ∧ stmts.length ≤ 4 := by
  obtain ⟨m₁, hu, h⟩ := Sys.run_append_some.1 h
  obtain ⟨m₂, hw, h⟩ := Sys.run_cons_some.1 h
  have hstmts : Silent stmts := (silent_append.1 hes).2
  have hru := reste_ticks hticks hu
  rw [hr, inconnu_eq ht] at hru
  rcases step_cases hw with ⟨b, hb, -⟩ | ⟨c', i, l, -, hr', rfl⟩ | ⟨c', hc, -⟩
  · cases hb
  · rw [hr'] at hru
    obtain ⟨rfl, rfl⟩ := List.cons.inj hru
    have hf : (Stmt.exec c' .varLock m₁.sketch).vue.isInit = false := exec_isInit ..
    exact duree_faute (by simp) (by simp) hf rfl hstmts h
  · cases hc

/-- **The fault never latches.** Whatever the state in which an unknown message arrives, the
mark does not survive the message: it lasts exactly as long as no interrupt has fallen since
the lock and `arret()` has not reached its order to the throttle. -/
theorem faute_jamais (hm : (machine mcu).Reach m) (hr : m.reste = parseMessage t) (ht : ¬ Connu t) :
    ¬ FauteTient mcu m ∧
    ∀ es m', Silent es → (machine mcu).run m es = some m' → .varLock ∉ m'.reste →
      (m'.sketch.var.isInit = false ↔ ∃ ticks c stmts, es = ticks ++ .stmt c :: stmts ∧
        (∀ e ∈ ticks, e.isTick) ∧ (∀ e ∈ stmts, e.isStmt) ∧ stmts.length ≤ 4) := by
  constructor
  · intro hf
    -- the message executed to its end, without interrupt
    have hrun : (machine mcu).run m (List.replicate m.reste.length (.stmt ⟨0, 0⟩)) =
        some ⟨m.sketch.execAll ⟨0, 0⟩ m.reste, [], m.journal⟩ := run_stmts _ m.reste m.sketch m.journal
    have harme := isInit_of_idle (hm.run hrun) rfl
    have hfaute := hf _ _ (octets_replicate_stmt _ _) hrun List.not_mem_nil
    rw [show (Sketch.execAll ⟨0, 0⟩ m.reste m.sketch).vue.isInit = false from hfaute] at harme
    cases harme
  · intro es m' hes h hlock
    constructor
    · intro hf
      rcases premier_stmt hes with hticks | ⟨ticks, c, stmts, rfl, hticks⟩
      · rw [reste_ticks hticks h, hr, varLock_mem_iff] at hlock
        exact absurd ht hlock
      · obtain ⟨hstmts, hlen⟩ := (faute_apres_lock hr ht hticks hes h).1 hf
        exact ⟨ticks, c, stmts, rfl, hticks, hstmts, hlen⟩
    · rintro ⟨ticks, c, stmts, rfl, hticks, hstmts, hlen⟩
      exact (faute_apres_lock hr ht hticks hes h).2 ⟨hstmts, hlen⟩

/-- The lock of the message `X` sets the mark. -/
theorem faute_lock_X : (Stmt.exec ⟨0, 0⟩ .varLock recuX.sketch).var.isInit = false :=
  ((faute_jamais reach_recuX (rfl : recuX.reste = parseMessage [88, 10]) (by decide)).2
    [.stmt ⟨0, 0⟩] ⟨_, _, _⟩ rfl rfl (by decide)).2
    ⟨[], ⟨0, 0⟩, [], rfl, by simp, by simp, by decide⟩

/-- The message `X`, its lock, and one interrupt: the mark is set again. -/
theorem not_faute_tient_X : (machine .atmega328P).Reach recuX ∧ recuX.reste = parseMessage [88, 10] ∧
    ¬ Connu [88, 10] ∧ ¬ FauteTient .atmega328P recuX := by
  refine ⟨reach_recuX, rfl, by decide, fun h => ?_⟩
  have hf := h [.stmt ⟨0, 0⟩, .tick ⟨0, 0⟩] ⟨_, _, _⟩ rfl rfl (by decide)
  revert hf
  decide +kernel

/-! ## The power cut -/

/-- `FS_pin` cuts the throttle's power. -/
def Bloque (s : Sketch) : Prop := s.board.pin Variateur.fsPin = .LOW

theorem bloque_vue (s : Sketch) : Bloque s ↔ s.vue.sens = .LOW := Iff.rfl

/-- After the message, and after every later interrupt, the power is cut. -/
def Interlock (mcu : Mcu) (m : Machine) : Prop :=
  ∀ es m', Silent es → (machine mcu).run m es = some m' → m'.reste = [] → Bloque m'.sketch

/-- The brake regulation of an event, if it makes one, reads at most the pressure it orders;
in fault, its effect on `FS_pin` is undone by the initialisation that follows. -/
def Douce (m : Machine) : Ev → Prop
  | .octet _ => True
  | .stmt c => ∀ v, m.reste.head? = some (.frCommande v) → m.sketch.var.isInit = true →
      (c.pression.val : ℤ) ≤ v.toInt
  | .tick c => m.sketch.var.isInit = true → (c.pression.val : ℤ) ≤ m.sketch.commandeFrein.toInt

/-- Every brake regulation of a run, from the lock on. -/
def Douces (mcu : Mcu) (m : Machine) (es : List Ev) : Prop :=
  ∀ es₁ e es₂ u, es = es₁ ++ e :: es₂ → (machine mcu).run m es₁ = some u → .varLock ∉ u.reste → Douce u e

/-- The power is cut, or the initialisation that cuts it is still to come; the lock may be
still to come as well. -/
def Coupe (u : Machine) : Prop :=
  .varLock ∈ u.reste ∨ u.sketch.vue.sens = .LOW ∨ u.sketch.vue.isInit = false

theorem coupe_step {u u' : Machine} {e : Ev} (hu : (machine mcu).Reach u) (hI : Coupe u)
    (hd : .varLock ∉ u.reste → Douce u e) (he : ∀ b, e ≠ .octet b) (h : (machine mcu).step u e = some u') :
    Coupe u' := by
  rcases step_cases h with ⟨b, rfl, -, -⟩ | ⟨c, i, l, rfl, hr, rfl⟩ | ⟨c, rfl, rfl⟩
  · exact absurd rfl (he b)
  · unfold Coupe
    rw [vue_exec]
    by_cases hlock : .varLock ∈ u.reste
    · -- the lock itself, or a statement before it
      rw [hr, List.mem_cons] at hlock
      rcases hlock with rfl | hl
      · exact .inr (.inr rfl)
      · exact .inl hl
    · have hold := hI.resolve_left hlock
      right
      cases i with
      | frCommande v =>
        -- in fault, the initialisation that follows undoes what the brake does to the pin
        rcases hi : u.sketch.vue.isInit with _ | _
        · exact .inr hi
        · have hv : OrdreFrein v :=
            ordreFrein_of_mem (.inl (mem_parseMessage hu hr))
          have hp := hd hlock v (by rw [hr]; rfl) hi
          exact .inl ((Vue.freine_sens_low _ _).2 (hv.vitesse_nonneg _ hp))
      | varCommande v =>
        rcases hi : u.sketch.vue.isInit with _ | _
        · left
          show u.sketch.vue.accelere.sens = .LOW
          rw [Vue.accelere_of_fault hi]
        · rw [hi] at hold
          show u.sketch.vue.accelere.sens = .LOW ∨ u.sketch.vue.accelere.isInit = false
          rw [Vue.accelere_of_init hi, hi]
          exact hold
      | varLock => exact .inr rfl
      | _ => exact hold
  · unfold Coupe
    by_cases hlock : .varLock ∈ u.reste
    · exact .inl hlock
    · right
      left
      rcases hi : u.sketch.vue.isInit with _ | _
      · exact (vue_isr_of_fault _ c hi).2
      · have hp := hd hlock hi
        have hv := ordreFrein_stored hu
        rw [vue_isr_of_init _ c hi, Vue.freine_sens_low]
        exact hv.vitesse_nonneg _ hp

/-- Once an unknown message has been processed, the stored brake order is 100. -/
theorem commandeFrein_inconnu (hr : m.reste = parseMessage t) (ht : ¬ Connu t) (hes : Silent es)
    (h : (machine mcu).run m es = some m') (hidle : m'.reste = []) : m'.sketch.commandeFrein = 100 := by
  have hp := promis_run hes.ligne h
  rw [promis_of_idle hidle] at hp
  have hm : m.promis = ⟨50, 100, 0⟩ := by
    unfold Machine.promis
    rw [hr, parseMessage_inconnu ht, foldl_arret]
  rw [hm] at hp
  exact congrArg Ordres.frein hp

/-- **When the throttle's power stays cut after a fault.** From the lock on, at the end of the
message and after every interrupt, in every run whose brake regulations read at most the
pressure they order; and once the message has been processed, an interrupt keeps the power
cut exactly when it reads at most 100. -/
theorem interlock (hm : (machine mcu).Reach m) (hr : m.reste = parseMessage t) (ht : ¬ Connu t)
    (hes : Silent es) (h : (machine mcu).run m es = some m') (hlock : .varLock ∉ m'.reste) :
    (Douces mcu m es → Observe mcu m' → Bloque m'.sketch) ∧
    (m'.reste = [] → ∀ c m'', (machine mcu).step m' (.tick c) = some m'' →
      (Bloque m''.sketch ↔ c.pression.val ≤ 100)) := by
  constructor
  · intro hd hobs
    have hstart : Coupe m := by
      left
      rw [hr]
      exact varLock_mem_iff.2 ht
    have hend : Coupe m' := by
      refine Sys.run_steps (fun es₁ e es₂ u u' he hrun hI hstep => ?_) hstart h
      refine coupe_step (hm.run hrun) hI (hd es₁ e es₂ u he hrun) ?_ hstep
      rintro b rfl
      exact hes.not_octet (b := b) (by rw [he]; simp)
    rcases hend.resolve_left hlock with hlow | hf
    · exact hlow
    · rw [hobs.isInit (hm.run h)] at hf
      cases hf
  · intro hidle c m'' hstep
    have h100 := commandeFrein_inconnu hr ht hes h hidle
    have hi := isInit_of_idle (hm.run h) hidle
    have hv : OrdreFrein 100 := .inr (by decide)
    rcases step_cases hstep with ⟨b, hb, -⟩ | ⟨c', i, l, hc, -⟩ | ⟨c', hc, rfl⟩
    · cases hb
    · cases hc
    · cases hc
      rw [bloque_vue, vue_isr_of_init _ c hi, Vue.freine_sens_low, h100,
        hv.vitesse_neg_iff _ (fun h => absurd h (by decide))]
      have h100' : (100 : Int16).toInt = 100 := by decide
      rw [h100']
      omega

/-- Both sensors at 0. -/
def Sensors.zero : Sensors := ⟨0, 0⟩

/-- The message `X` executed to its end, without interrupt. -/
def finX : Machine := ⟨recuX.sketch.execAll ⟨0, 0⟩ recuX.reste, [], recuX.journal⟩

def stmtsX : List Ev := List.replicate recuX.reste.length (.stmt ⟨0, 0⟩)

theorem run_finX : (machine .atmega328P).run recuX stmtsX = some finX := run_stmts ⟨0, 0⟩ _ _ _

/-- The lock of `X` and an interrupt in its midst, whatever the pressure. -/
theorem douces_X (p : Adc) : Douces .atmega328P recuX [.stmt ⟨0, 0⟩, .tick ⟨p, 0⟩] := by
  intro es₁ e es₂ u he hrun hlock
  rcases es₁ with _ | ⟨e₁, _ | ⟨e₂, es₁⟩⟩
  · cases hrun
    exact absurd (by decide) hlock
  · cases he
    cases hrun
    exact fun hi => by cases hi
  · have := congrArg List.length he
    simp at this

/-- An interrupt right after the lock, at full pressure, leaves the power cut; so does one
after the message at a pressure of 100. -/
theorem interlock_X : (∀ m', (machine .atmega328P).run recuX [.stmt ⟨0, 0⟩, .tick ⟨1023, 0⟩] = some m' →
      Bloque m'.sketch) ∧ Bloque (finX.sketch.isr ⟨100, 0⟩) := by
  have hr : recuX.reste = parseMessage [88, 10] := rfl
  constructor
  · intro m' h
    obtain ⟨u, hu, hstep⟩ := Sys.run_cons_some.1 h
    have hobs : Observe .atmega328P m' := .inr ⟨u, ⟨1023, 0⟩, reach_recuX.step hu, by simpa using hstep⟩
    have hes : Silent [.stmt ⟨0, 0⟩, .tick ⟨1023, 0⟩] := rfl
    have hlock : .varLock ∉ m'.reste := by
      cases h
      decide
    exact (interlock reach_recuX hr (by decide) hes h hlock).1 (douces_X 1023) hobs
  · exact ((interlock reach_recuX hr (by decide) (octets_replicate_stmt _ _) run_finX List.not_mem_nil).2 rfl
      ⟨100, 0⟩ _ rfl).2 (by decide)

/-- An interrupt after the message at a pressure of 101: the power is back. -/
theorem not_interlock_X : (machine .atmega328P).Reach recuX ∧ recuX.reste = parseMessage [88, 10] ∧
    ¬ Connu [88, 10] ∧ ¬ Interlock .atmega328P recuX := by
  refine ⟨reach_recuX, rfl, by decide, fun h => ?_⟩
  have hrun : (machine .atmega328P).run recuX (stmtsX ++ [.tick ⟨101, 0⟩]) =
      some ⟨finX.sketch.isr ⟨101, 0⟩, [], finX.journal⟩ :=
    Sys.run_append_some.2 ⟨finX, run_finX, rfl⟩
  have hsilent : Silent (stmtsX ++ [.tick ⟨101, 0⟩]) :=
    silent_append.2 ⟨octets_replicate_stmt _ _, rfl⟩
  have hb := h _ _ hsilent hrun rfl
  revert hb
  unfold Bloque
  decide +kernel

end ICar
