import ICar.Proof.Dialogue

/-!
# The attitude board's stream

The board sends lines; `get_razor_data` reads three a call, each up to a newline or 25 bytes. The
dialogue of `dialogue_synchrone` is that of well-formed answers. `releves_flux` is about any bytes:
over successive calls the lines read are the stream of the answers cut after each newline and
at 25 bytes, in the only possible way, and each attitude is that of its three lines. So nothing is
lost or read twice, and where one answer ends and the next begins plays no part: a byte too many
shifts every later call.
-/

namespace ICar

open Framing

variable {t : Tampons} {ts : List Tampons} {p q : Port} {a : Attitude} {as : List Attitude}

/-! ## A call -/

/-- **Lines do not begin one another.** -/
theorem recue_sansPrefixe (n : ℕ) : SansPrefixe (Recue n) := by
  rintro r r' h h' hp
  rcases h' with ⟨l', rfl, hl', hn'⟩ | ⟨hr', hn'⟩
  · rcases List.prefix_concat_iff.1 hp with heq | hlt
    · exact heq
    · -- a shorter line has its newline, or all its bytes, before the end of the other
      rcases h with ⟨l, rfl, -, -⟩ | ⟨-, hn⟩
      · exact absurd (hlt.subset (List.mem_append_right _ (List.mem_singleton.2 rfl))) hl'
      · have := hlt.length_le
        omega
  · rcases h with ⟨l, rfl, -, -⟩ | ⟨-, hn⟩
    · exact absurd (hp.subset (List.mem_append_right _ (List.mem_singleton.2 rfl))) hr'
    · exact hp.eq_of_length (hn.trans hn'.symm)

/-- The attitude of three lines, over what the arrays held. -/
def Tampons.attitude (t : Tampons) (r₁ r₂ r₃ : List Int8) : Attitude :=
  .de (sortiesDe t.accel r₁) (sortiesDe t.magn r₂) (sortiesDe t.gyro r₃)

/-- **A call on any stream**: it reads three lines, and leaves the rest. -/
theorem getRazorData_lignes (h : getRazorData t p = some (a, q)) : ∃ r₁ r₂ r₃, Recue 25 r₁ ∧ Recue 25 r₂ ∧ Recue 25 r₃ ∧
    p.write.entree = r₁ ++ (r₂ ++ (r₃ ++ q.entree)) ∧ q.reponses = p.reponses.tail ∧ a = t.attitude r₁ r₂ r₃ := by
  unfold getRazorData at h
  simp only [Option.bind_eq_bind, Option.bind_eq_some_iff] at h
  obtain ⟨⟨accel, p₁⟩, h₁, ⟨magn, p₂⟩, h₂, ⟨gyro, p₃⟩, h₃, ba, ha, bm, hm, bg, hg, h⟩ := h
  cases h
  obtain ⟨r₁, hr₁, hp₁, rfl⟩ := lireLigne_some h₁
  obtain ⟨r₂, hr₂, rfl, rfl⟩ := lireLigne_some h₂
  obtain ⟨r₃, hr₃, rfl, rfl⟩ := lireLigne_some h₃
  rw [parseRazorAllAxis_eq] at ha hm hg
  cases ha
  cases hm
  cases hg
  exact ⟨r₁, r₂, r₃, hr₁, hr₂, hr₃, congrArg Port.entree hp₁, (congrArg Port.reponses hp₁).symm, rfl⟩

/-! ## Successive calls -/

/-- The stream that `n` calls meet: what waits at the port, and the answers to their requests. -/
def Port.flux (p : Port) (n : ℕ) : List Int8 := p.entree ++ (p.reponses.take n).flatten

/-- The attitudes of lines taken three by three. -/
def attitudes : List Tampons → List (List Int8) → List Attitude
  | t :: ts, r₁ :: r₂ :: r₃ :: ls => t.attitude r₁ r₂ r₃ :: attitudes ts ls
  | _, _ => []

theorem flux_succ (p : Port) (n : ℕ) : p.flux (n + 1) = p.write.entree ++ (p.reponses.tail.take n).flatten := by
  unfold Port.flux Port.write
  cases p.reponses with
  | nil => simp
  | cons r l => simp

/-- **The lines of successive calls** are cut from the stream. -/
theorem releves_lignes (h : releves ts p = some (as, q)) : ∃ ls : List (List Int8), ls.length = 3 * ts.length ∧
    (∀ l ∈ ls, Recue 25 l) ∧ p.flux ts.length = ls.flatten ++ q.entree ∧ as = attitudes ts ls := by
  induction ts generalizing p as with
  | nil =>
    cases h
    exact ⟨[], rfl, fun l hl => absurd hl List.not_mem_nil, by simp [Port.flux], rfl⟩
  | cons t ts ih =>
    simp only [releves, Option.bind_eq_bind, Option.bind_eq_some_iff] at h
    obtain ⟨⟨a, p'⟩, hcall, ⟨as', q'⟩, hrel, h⟩ := h
    cases h
    obtain ⟨r₁, r₂, r₃, h₁, h₂, h₃, hentree, hrep, rfl⟩ := getRazorData_lignes hcall
    obtain ⟨ls, hlen, hls, hflux, rfl⟩ := ih hrel
    refine ⟨r₁ :: r₂ :: r₃ :: ls, ?_, ?_, ?_, rfl⟩
    · simp only [List.length_cons, hlen]
      ring
    · simp only [List.forall_mem_cons]
      exact ⟨h₁, h₂, h₃, hls⟩
    · have hnext : p'.entree ++ (p.reponses.tail.take ts.length).flatten = p'.flux ts.length := by
        rw [← hrep]
        rfl
      rw [List.length_cons, flux_succ, hentree]
      simp only [List.append_assoc, List.flatten_cons]
      rw [hnext, hflux]

/-- **The dialogue depends on the stream alone.** Over any number of calls that return, whatever the
board sends: the lines read are the beginning of the stream, cut after each newline and at 25 bytes;
the attitudes are those of the lines, three a call; what remains at the port is the rest. Where the
calls return for another division of the same stream into answers, they give the same attitudes and
the same rest. -/
theorem releves_flux (h : releves ts p = some (as, q)) :
    (∃ ls : List (List Int8), ls.length = 3 * ts.length ∧ (∀ l ∈ ls, Recue 25 l) ∧
      p.flux ts.length = ls.flatten ++ q.entree ∧ as = attitudes ts ls) ∧
    ∀ p' q' as', releves ts p' = some (as', q') → p'.flux ts.length = p.flux ts.length →
      as' = as ∧ q'.entree = q.entree := by
  obtain ⟨ls, hlen, hls, hflux, has⟩ := releves_lignes h
  refine ⟨⟨ls, hlen, hls, hflux, has⟩, fun p' q' as' h' heq => ?_⟩
  obtain ⟨ls', hlen', hls', hflux', has'⟩ := releves_lignes h'
  rw [heq, hflux] at hflux'
  obtain ⟨rfl, hrest⟩ := (recue_sansPrefixe 25).flatten_inj hls hls' (hlen.trans hlen'.symm) hflux'
  exact ⟨has'.trans has.symm, hrest.symm⟩

def Tampons.zeros : Tampons := ⟨.zeros, .zeros, .zeros⟩

/-- `-999.99`, `-999.99` and nothing, nothing from the end of the line, then well-formed lines. -/
def attitudesLongue : List Attitude :=
  [⟨-99999 / 100, -99999 / 100, 0, 0, 0, 0, -1 / 2, 617 / 50, 1⟩,
    ⟨-1 / 2, 617 / 50, 1, -1 / 2, 617 / 50, 1, -1 / 2, 617 / 50, 1⟩]

/-- A first line of 29 bytes is cut after 25, and its end read as the second: so the third line of the
first answer is left to the second call. The same where the board sends it with the second answer. -/
theorem releves_flux_longue :
    (∃ q, releves [.zeros, .zeros] ⟨[], [Ligne.longue.texte ++ (Ligne.exemple.texte ++ Ligne.exemple.texte),
      Ligne.exemple.texte ++ Ligne.exemple.texte]⟩ = some (attitudesLongue, q)) ∧
    ∀ as q, releves [.zeros, .zeros] ⟨[], [Ligne.longue.texte ++ Ligne.exemple.texte,
      Ligne.exemple.texte ++ (Ligne.exemple.texte ++ Ligne.exemple.texte)]⟩ = some (as, q) → as = attitudesLongue := by
  have hrel : (releves [.zeros, .zeros] ⟨[], [Ligne.longue.texte ++ (Ligne.exemple.texte ++ Ligne.exemple.texte),
      Ligne.exemple.texte ++ Ligne.exemple.texte]⟩).map Prod.fst = some attitudesLongue := by
    decide +kernel
  obtain ⟨⟨as, q⟩, h, rfl⟩ := Option.map_eq_some_iff.1 hrel
  exact ⟨⟨q, h⟩, fun as' q' h' => ((releves_flux h).2 _ q' as' h' (by decide)).1⟩

end ICar
