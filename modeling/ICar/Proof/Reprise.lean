import ICar.Proof.Arrivees
import ICar.Proof.Repetition

/-!
# A stop makes the past forgotten

The decoder keeps a text and the orders; both outlive a broken message or a lost connection.
`reprise`: a newline followed by a stop clears them from any reachable state, in the middle of
any message and with interrupts anywhere. What follows is received as by a program whose first
orders are those of `arret()`, and an interrupt then drives the brake and the throttle by these
orders alone. Only the steering's sum remembers what came before.
-/

namespace ICar

open Framing FixedWidth

variable {mcu : Mcu} {m m' : Machine} {es : List Ev} {t : Trame}

/-- A stop assigns all three orders. -/
theorem suite_arret (ht : ExecuteArret t.texte) (o : Ordres) : o.suite t.texte = ⟨50, 100, 0⟩ := by
  unfold Ordres.suite
  rcases parseMessage_arret ht with hp | hp <;> rw [hp] <;> rfl

/-- After a newline and a message: what is handed over and kept is that of the rest. -/
theorem scan_newline (q : List (List Int8) × List Int8) (t : Trame) (xs : List Int8) :
    scan (car '\n') q (car '\n' :: (t.texte ++ xs)) =
      (q.1 ++ [q.2 ++ [car '\n']] ++ [t.texte] ++ (scan (car '\n') ([], []) xs).1,
        (scan (car '\n') ([], []) xs).2) := by
  have hfeed : feed (car '\n') q (car '\n') = (q.1 ++ [q.2 ++ [car '\n']], []) := by
    unfold feed
    rw [if_pos rfl]
  have htexte := scan_frame t.ligne (q.1 ++ [q.2 ++ [car '\n']]) []
  rw [List.nil_append] at htexte
  have hrest := scan_fst_append (d := car '\n') (q.1 ++ [q.2 ++ [car '\n']] ++ [t.texte]) [] [] xs
  rw [List.append_nil] at hrest
  calc scan (car '\n') q (car '\n' :: (t.texte ++ xs))
      = scan (car '\n') (q.1 ++ [q.2 ++ [car '\n']], []) (t.texte ++ xs) := by rw [← hfeed]; rfl
    _ = scan (car '\n') (q.1 ++ [q.2 ++ [car '\n']] ++ [t.texte], []) xs := by
        rw [scan_append, Trame.texte, htexte]
    _ = _ := hrest

/-- **After a newline and a stop, the past is forgotten.** From every reachable state, over
every run that reads them and then `xs`, and ends between messages: the text and the orders
are functions of `xs`, and so is what an interrupt gives the throttle and the brake. -/
theorem reprise (t : Trame) (xs : List Int8) (hm : (machine mcu).Reach m) (ht : ExecuteArret t.texte)
    (ho : (octets es).map UInt8.toInt8 = car '\n' :: (t.texte ++ xs))
    (h : (machine mcu).run m es = some m') (hr : m'.reste = []) (c : Sensors) :
    let o := (scan (car '\n') ([], []) xs).1.foldl Ordres.suite ⟨50, 100, 0⟩
    m'.sketch.ordres = o ∧ m'.sketch.inputString = (scan (car '\n') ([], []) xs).2 ∧
      (m'.sketch.isr c).gaz = clamp 0 155 o.variateur ∧
      (m'.sketch.isr c).board.m1Speed =
        clamp (-400) 400 (ofQ ((25 * (Frein.erreur o.frein c.pression).toInt : ℤ) : ℚ)) := by
  intro o
  have hq := recus_eq (reach_ok hm) h
  rw [ho, scan_newline] at hq
  have hord : m'.sketch.ordres = o := by
    have hj : m'.journal = _ := congrArg Prod.fst hq
    rw [← promis_of_idle hr, promis_eq (hm.run h), hj]
    unfold ordresDe
    rw [List.foldl_append, List.foldl_append, List.foldl_cons, List.foldl_nil, suite_arret ht]
  have htext : m'.sketch.inputString = (scan (car '\n') ([], []) xs).2 := by
    have ht' : m'.tampon = _ := congrArg Prod.snd hq
    unfold Machine.tampon at ht'
    rwa [if_pos hr] at ht'
  refine ⟨hord, htext, ?_, ?_⟩
  · rw [gaz_isr, ← hord]
    rfl
  · rw [isr_m1Speed, ← hord]
    rfl

/-- A `V` cut off before its value is ended by the newline, which is taken for the value and
powers the throttle; the `S` after it puts the orders back. -/
theorem reprise_S : ∃ m m', (machine .atmega328P).run m
      [.octet 10, .stmt ⟨0, 0⟩, .tick ⟨0, 0⟩, .stmt ⟨0, 0⟩, .stmt ⟨0, 0⟩, .octet 83, .octet 10, .stmt ⟨0, 0⟩,
        .stmt ⟨0, 0⟩, .stmt ⟨0, 0⟩, .stmt ⟨0, 0⟩, .stmt ⟨0, 0⟩, .stmt ⟨0, 0⟩, .stmt ⟨0, 0⟩] = some m' ∧
    m.sketch.inputString = [car 'V'] ∧ m'.sketch.ordres = ⟨50, 100, 0⟩ := by
  have h0 : (machine .atmega328P).run (machine .atmega328P).init [.octet 86] = some _ := rfl
  have hrun : (machine .atmega328P).run ((machine .atmega328P).init.octet 86)
      [.octet 10, .stmt ⟨0, 0⟩, .tick ⟨0, 0⟩, .stmt ⟨0, 0⟩, .stmt ⟨0, 0⟩, .octet 83, .octet 10, .stmt ⟨0, 0⟩,
        .stmt ⟨0, 0⟩, .stmt ⟨0, 0⟩, .stmt ⟨0, 0⟩, .stmt ⟨0, 0⟩, .stmt ⟨0, 0⟩, .stmt ⟨0, 0⟩] = some _ := rfl
  have hord := (reprise ⟨[car 'S'], by decide⟩ [] ⟨_, h0⟩ (.inl rfl) rfl hrun rfl ⟨0, 0⟩).1
  exact ⟨_, _, hrun, rfl, hord⟩

end ICar
