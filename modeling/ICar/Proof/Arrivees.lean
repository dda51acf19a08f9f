import ICar.Proof.Ordres
import ICar.Spec.Arrivees

/-!
# The frames do not depend on how the bytes arrive

However a stream is cut into calls of `serialEvent` and wherever interrupts fall between
them, the messages handed to `parseMessage` are the stream split after each newline, the
text kept is what follows the last one, and the stored orders are those the messages lead to
(`suivi_trames`). So three things are functions of the stream alone, and after a newline the
rest of the stream is received as from start-up (`arrivees_trames`).

The orders come from an invariant of every run of the machine, interrupts within a message
included (`promis_eq`).
-/

namespace ICar

open Framing

variable {mcu : Mcu} {m : Machine}

/-- The orders after a message. -/
def Ordres.suite (o : Ordres) (t : List Int8) : Ordres := (parseMessage t).foldl Ordres.apres o

/-- The orders that a list of messages leads to from `setup` on. -/
def ordresDe (ts : List (List Int8)) : Ordres := ts.foldl Ordres.suite ⟨500, 0, 0⟩

/-- **The orders to come are those of the messages handed over**, wherever interrupts fall. -/
theorem promis_eq (hm : (machine mcu).Reach m) : m.promis = ordresDe m.journal := by
  refine hm.inv (I := fun m => m.promis = ordresDe m.journal) ?_ (fun u e u' _ hu hstep => ?_)
  · rw [promis_of_idle rfl, ordres_setup]
    rfl
  by_cases he : ∃ b, e = .octet b ∧ b.toInt8 = car '\n'
  · -- a newline: the message's own assignments are now to come
    obtain ⟨b, rfl, hb⟩ := he
    rcases step_cases hstep with ⟨b', hb', hr, rfl⟩ | ⟨c, i, l, hc, -⟩ | ⟨c, hc, -⟩
    · cases hb'
      rw [promis_of_idle hr] at hu
      unfold Machine.octet
      rw [if_pos hb]
      unfold ordresDe at hu ⊢
      rw [List.foldl_append, ← hu]
      rfl
    · cases hc
    · cases hc
  · rw [promis_step (fun b hb hn => he ⟨b, hb, hn⟩) hstep, hu]
    rcases step_cases hstep with ⟨b, rfl, -, rfl⟩ | ⟨c, i, l, -, -, rfl⟩ | ⟨c, -, rfl⟩
    · unfold Machine.octet
      rw [if_neg fun hb => he ⟨b, rfl, hb⟩]
    · rfl
    · rfl

/-- **What is received**: the stream split after each newline, and the orders it leads to. -/
theorem suivi_trames (mcu : Mcu) (as : List Arrivee) :
    Framed (car '\n') (flux as) (suivi mcu as).journal (suivi mcu as).sketch.inputString ∧
      (suivi mcu as).sketch.ordres = ordresDe (suivi mcu as).journal := by
  obtain ⟨es, hrun, hflux⟩ := suivi_run mcu as
  constructor
  · rw [framed_iff, ← hflux]
    exact (recus_eq ok_init hrun).symm
  · have hp := promis_eq (suivi_reach mcu as)
    rw [promis_of_idle rfl] at hp
    exact hp

/-- **The frames do not depend on how the bytes arrive.** The messages handed over, the text
kept and the stored orders are those of the stream, split after each newline; arrivals of the
same stream give the same ones; and after a prefix that ends in a newline, the rest gives the
messages and the text that it would give from start-up. -/
theorem arrivees_trames (mcu : Mcu) (as : List Arrivee) :
    Framed (car '\n') (flux as) (suivi mcu as).journal (suivi mcu as).sketch.inputString ∧
    (suivi mcu as).sketch.ordres = ordresDe (suivi mcu as).journal ∧
    (∀ bs, flux bs = flux as → (suivi mcu bs).journal = (suivi mcu as).journal ∧
      (suivi mcu bs).sketch.inputString = (suivi mcu as).sketch.inputString ∧
      (suivi mcu bs).sketch.ordres = (suivi mcu as).sketch.ordres) ∧
    ∀ ps bs, flux as = flux ps ++ flux bs → (flux ps).getLast? = some (car '\n') →
      (suivi mcu as).journal = (suivi mcu ps).journal ++ (suivi mcu bs).journal ∧
      (suivi mcu as).sketch.inputString = (suivi mcu bs).sketch.inputString ∧
      (suivi mcu as).sketch.ordres =
        (suivi mcu bs).journal.foldl Ordres.suite (suivi mcu ps).sketch.ordres := by
  obtain ⟨hframed, hord⟩ := suivi_trames mcu as
  refine ⟨hframed, hord, fun bs hbs => ?_, fun ps bs hcut hnl => ?_⟩
  · obtain ⟨hframed', hord'⟩ := suivi_trames mcu bs
    rw [hbs, framed_iff] at hframed'
    have h := hframed'.symm.trans (framed_iff.1 hframed)
    obtain ⟨hj, ht⟩ := Prod.mk.inj h
    exact ⟨hj, ht, by rw [hord', hord, hj]⟩
  · obtain ⟨hp, hpord⟩ := suivi_trames mcu ps
    obtain ⟨hb, -⟩ := suivi_trames mcu bs
    rw [hp.eq_nil hnl] at hp
    have h := (framed_iff.1 (hcut ▸ hp.append hb)).symm.trans (framed_iff.1 hframed)
    obtain ⟨hj, ht⟩ := Prod.mk.inj h
    refine ⟨hj.symm, ht.symm, ?_⟩
    rw [hord, hpord, ← hj]
    exact List.foldl_append ..

/-- A byte of noise and a newline, an interrupt, then a throttle order in two packets: the
order is received as from start-up. -/
theorem arrivees_bruit : (suivi .atmega328P [.serialEvent [(200, ⟨0, 0⟩), (10, ⟨0, 0⟩)], .tick ⟨0, 0⟩,
      .serialEvent [(86, ⟨0, 0⟩)], .serialEvent [(30, ⟨0, 0⟩), (10, ⟨0, 0⟩)]]).journal =
    (suivi .atmega328P [.serialEvent [(200, ⟨0, 0⟩), (10, ⟨0, 0⟩)]]).journal ++
      (suivi .atmega328P [.serialEvent [(86, ⟨0, 0⟩), (30, ⟨0, 0⟩), (10, ⟨0, 0⟩)]]).journal :=
  ((arrivees_trames .atmega328P _).2.2.2 _ _ rfl rfl).1

end ICar
