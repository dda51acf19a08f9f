import ICar.Proof.Journal
import ICar.Spec.Messages

/-!
# The stored orders, and the wrong messages

The three stored orders change only when `parseMessage` assigns them: an interrupt re-applies
them and leaves them alone. So the orders a message leads to are known as soon as its newline
has been read (`promis_run`), wherever the interrupts fall.

`arret_urgence_iff`: a wrong message leads to the emergency stop that the comment above
`parseMessage` announces exactly when its header is none of the `switch`'s.
-/

namespace ICar

variable {mcu : Mcu} {m m' : Machine} {es : List Ev}

/-- The orders of the user that the interrupt re-applies. -/
structure Ordres where
  direction : Int16
  frein : Int16
  variateur : Int16
deriving DecidableEq, Repr

def Sketch.ordres (s : Sketch) : Ordres := ⟨s.commandeDirection, s.commandeFrein, s.commandeVariateur⟩

/-- A statement's effect on the stored orders. -/
def Ordres.apres (o : Ordres) : Stmt → Ordres
  | .commandeDirection v => { o with direction := v }
  | .commandeFrein v => { o with frein := v }
  | .commandeVariateur v => { o with variateur := v }
  | _ => o

@[simp] theorem dirCommande_ordres (v : Int16) (c : Sensors) (s : Sketch) :
    (s.dirCommande v c).ordres = s.ordres := by simp only [Sketch.dirCommande, Sketch.ordres]

@[simp] theorem frCommande_ordres (v : Int16) (c : Sensors) (s : Sketch) :
    (s.frCommande v c).ordres = s.ordres := by
  unfold Sketch.ordres Sketch.frCommande
  rfl

@[simp] theorem varCommande_ordres (v : Int16) (s : Sketch) : (s.varCommande v).ordres = s.ordres := by
  simp only [Sketch.varCommande, Sketch.ordres]

@[simp] theorem varLock_ordres (s : Sketch) : s.varLock.ordres = s.ordres := by
  simp only [Sketch.varLock, Sketch.ordres]

@[simp] theorem isr_ordres (c : Sensors) (s : Sketch) : (s.isr c).ordres = s.ordres := by
  simp [Sketch.isr]

/-- **Only an assignment changes a stored order.** -/
theorem exec_ordres (c : Sensors) (i : Stmt) (s : Sketch) : (i.exec c s).ordres = s.ordres.apres i := by
  cases i <;> simp [Stmt.exec, Ordres.apres] <;> rfl

/-- At the end of `setup`. -/
theorem ordres_setup (mcu : Mcu) : (machine mcu).init.sketch.ordres = ⟨500, 0, 0⟩ := by
  cases mcu <;> rfl

/-- **What the assignments of every message preserve holds of the stored orders.** -/
theorem ordres_inv {P : Ordres → Prop} (h0 : P ⟨500, 0, 0⟩)
    (hP : ∀ t, ∀ i ∈ parseMessage t, ∀ o, P o → P (o.apres i)) (hm : (machine mcu).Reach m) :
    P m.sketch.ordres := by
  refine hm.inv (I := fun m => P m.sketch.ordres) ((ordres_setup mcu).symm ▸ h0)
    (fun t e t' hreach ht hstep => ?_)
  rcases step_cases hstep with ⟨b, -, -, rfl⟩ | ⟨c, i, l, -, hr, rfl⟩ | ⟨c, -, rfl⟩
  · unfold Machine.octet
    split <;> exact ht
  · rw [exec_ordres]
    exact hP _ i (mem_parseMessage hreach hr) _ ht
  · rw [isr_ordres]
    exact ht

/-- The orders once the statements that remain have been executed. -/
def Machine.promis (m : Machine) : Ordres := m.reste.foldl Ordres.apres m.sketch.ordres

theorem promis_step {e : Ev} (he : ∀ b, e = .octet b → b.toInt8 ≠ car '\n')
    (h : (machine mcu).step m e = some m') : m'.promis = m.promis := by
  rcases step_cases h with ⟨b, rfl, -, rfl⟩ | ⟨c, i, l, rfl, hr, rfl⟩ | ⟨c, rfl, rfl⟩
  · unfold Machine.octet
    rw [if_neg (he b rfl)]
    rfl
  · unfold Machine.promis
    rw [hr, List.foldl_cons, exec_ordres]
  · unfold Machine.promis
    rw [isr_ordres]

/-- **Until the next newline is read, the orders to come are settled.** -/
theorem promis_run (hes : car '\n' ∉ (octets es).map UInt8.toInt8) (h : (machine mcu).run m es = some m') :
    m'.promis = m.promis := by
  refine Sys.run_inv (I := fun t => t.promis = m.promis) (fun e he t t' ht hstep => ?_) rfl h
  rw [promis_step ?_ hstep, ht]
  rintro b rfl hb
  apply hes
  rw [← hb]
  exact List.mem_map_of_mem (mem_octets.2 he)

theorem promis_of_idle (h : m.reste = []) : m.promis = m.sketch.ordres := by
  unfold Machine.promis
  rw [h, List.foldl_nil]

/-! ## Emergency stop -/

/-- The message is received and processed to its end from an idle reachable state, with
interrupts anywhere. -/
def Traite (mcu : Mcu) (t : Trame) (m m' : Machine) : Prop :=
  (machine mcu).Reach m ∧ m.reste = [] ∧ m.sketch.inputString = [] ∧ m'.reste = [] ∧
    ∃ es, (machine mcu).run m es = some m' ∧ (octets es).map UInt8.toInt8 = t.texte

/-- A message outside the documented syntax locks the throttle and stops the car; one of
the syntax does not lock the throttle. -/
def ArretUrgence (mcu : Mcu) (t : Trame) : Prop :=
  (¬ Grammaire t.texte → .varLock ∈ parseMessage t.texte ∧ arret <:+: parseMessage t.texte ∧
    ∀ m m', Traite mcu t m m' → m'.sketch.commandeFrein = 100 ∧ m'.sketch.commandeVariateur = 0) ∧
  (Grammaire t.texte → .varLock ∉ parseMessage t.texte)

/-- The stop's own orders, whatever was stored before. -/
theorem foldl_arret (o : Ordres) :
    (Stmt.varLock :: (arret ++ [.videInputString])).foldl Ordres.apres o = ⟨50, 100, 0⟩ := rfl

/-- **The orders after a message**: those its statements assign. -/
theorem Traite.ordres {t : Trame} (h : Traite mcu t m m') :
    m'.sketch.ordres = (parseMessage t.texte).foldl Ordres.apres m.sketch.ordres := by
  obtain ⟨hm, hidle, htext, hidle', es, hrun, hoct⟩ := h
  have hmap : octets es = t.corps.map Int8.toUInt8 ++ [(car '\n').toUInt8] := by
    have := congrArg (List.map Int8.toUInt8) hoct
    simpa [Trame.texte, Function.comp_def] using this
  obtain ⟨es₁, es₂, m₁, -, ho₁, hes₂, hrun₁, hidle₁, hrun₂⟩ := run_last_octet hrun hmap
  have hbody : (octets es₁).map UInt8.toInt8 = t.corps := by simp [ho₁, Function.comp_def]
  -- the body has been read: it is the text kept, and the orders have not moved
  have htext₁ : m₁.sketch.inputString = t.corps := by
    have hq := recus_eq (reach_ok hm) hrun₁
    have h0 : m.recus = (m.journal, []) := by simp [Machine.recus, Machine.tampon, hidle, htext]
    rw [h0, hbody, Framing.scan_body t.ligne] at hq
    simpa [Machine.recus, Machine.tampon, hidle₁] using congrArg Prod.snd hq
  have hord₁ : m₁.sketch.ordres = m.sketch.ordres := by
    rw [← promis_of_idle hidle₁, ← promis_of_idle hidle]
    exact promis_run (hbody ▸ t.ligne) hrun₁
  -- the newline settles the orders to come
  rw [← promis_of_idle hidle', promis_run hes₂.ligne hrun₂, ← hord₁]
  simp [Machine.promis, Machine.octet, htext₁, Trame.texte, Sketch.ordres]

/-- **Which wrong messages lead to emergency stop.** Those whose header is unknown: a known
header with a bad value, a missing one or more characters than the syntax allows does not
lock the throttle. -/
theorem arret_urgence_iff (mcu : Mcu) (t : Trame) :
    ArretUrgence mcu t ↔ Grammaire t.texte ∨ ¬ Connu t.texte := by
  constructor
  · -- a wrong message with a known header never locks the throttle
    intro h
    by_contra hno
    rw [not_or, not_not] at hno
    exact varLock_mem_iff.1 (h.1 hno.1).1 hno.2
  · rintro (hg | hc)
    · have hlock := mt varLock_mem_iff.1 (not_not.2 (connu_of_grammaire hg))
      exact ⟨fun hng => absurd hg hng, fun _ => hlock⟩
    · refine ⟨fun _ => ⟨varLock_mem_iff.2 hc, ?_, fun m m' hmm => ?_⟩,
        fun hg => absurd (connu_of_grammaire hg) hc⟩
      · rw [parseMessage_inconnu hc]
        exact ⟨[.varLock], [.videInputString], rfl⟩
      · have ho := hmm.ordres
        rw [parseMessage_inconnu hc, foldl_arret] at ho
        exact ⟨congrArg Ordres.frein ho, congrArg Ordres.variateur ho⟩

/-- A steering order of 101 is taken for an order. -/
theorem not_arret_urgence_101 : ¬ ArretUrgence .atmega328P ⟨[car 'D', 101], by decide⟩ := by
  rw [arret_urgence_iff]
  unfold Grammaire
  rintro (h | h)
  · rcases h with h | h | ⟨h, v, -, -, hv, ht⟩
    · exact absurd h (by decide)
    · exact absurd h (by decide)
    · have h101 : v = 101 := by
        simp [Trame.texte] at ht
        exact ht.2.symm
      rw [h101] at hv
      exact absurd hv (by decide)
  · exact h (by decide)

end ICar
