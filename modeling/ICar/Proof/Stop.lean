import ICar.Proof.Decoupe
import ICar.Proof.Liaison

/-!
# The STOP button

The application ends its session with the single byte `S` and closes the socket. `main`
returns on a piece that begins with this byte, and writes nothing for it; when the byte
comes second in a piece, `main` takes it for a value, writes a message that the Arduino
executes as a stop, and runs on. `stop_iff`: the stop gets through exactly when no piece
begins with `S`.
-/

namespace ICar

/-- The bytes of a session: the commands, then STOP. -/
def session (cmds : List Commande) : List Int8 := octetsDe cmds ++ onTouch.map UInt8.toInt8

/-- After the commands of the session have been received, `main` writes a message that
the Arduino executes as a stop. -/
def StopEcrit (cmds : List Commande) (rs : List Recv) : Prop :=
  ∃ pre r post c, rs = pre ++ r :: post ∧ 2 * cmds.length < ((pre ++ [r]).flatMap Recv.octets).length ∧
    (Pont.main (pre ++ [r])).appels = (Pont.main pre).appels ++ [c] ∧ ExecuteArret (messageDe c)

/-- `main` does not return, however long after the end of the connection, before it has
written the stop. -/
def StopTransmis (cmds : List Commande) (rs : List Recv) : Prop :=
  ∀ n, (Pont.main (rs ++ List.replicate n .ferme)).actif = false →
    StopEcrit cmds (rs ++ List.replicate n .ferme)

theorem length_session (cmds : List Commande) : (session cmds).length = 2 * cmds.length + 1 := by
  unfold session
  rw [List.length_append, length_octetsDe]
  rfl

theorem flatMap_octets_eq_nil {rs : List Recv} (h : ∀ r ∈ rs, r.octets ≠ [])
    (h0 : (rs.flatMap Recv.octets).length = 0) : rs = [] := by
  cases rs with
  | nil => rfl
  | cons r rs =>
    have hr := h r List.mem_cons_self
    rw [List.flatMap_cons, List.length_append] at h0
    exact absurd (List.length_eq_zero_iff.1 (by omega)) hr

/-- A call after the commands leaves no room for a stop header before it. -/
theorem actif_of_stopEcrit {cmds : List Commande} {rs : List Recv} (h : Decoupe rs (session cmds))
    (hs : StopEcrit cmds rs) : (Pont.main rs).actif = true := by
  obtain ⟨pre, r, post, c, hrs, hlen, happ, -⟩ := hs
  have hpost : post = [] := by
    have hall := h.2
    have hl := length_session cmds
    rw [← hall, hrs, ← List.singleton_append, ← List.append_assoc, List.flatMap_append,
      List.length_append] at hl
    apply flatMap_octets_eq_nil _ (by omega)
    intro q hq
    exact h.1 q (by rw [hrs]; simp [hq])
  subst hpost
  rw [hrs, main_concat]
  rw [main_concat] at happ
  cases ha : (Pont.main pre).actif with
  | false =>
    rw [tour_inactif ha] at happ
    exact absurd (congrArg List.length happ) (by simp)
  | true =>
    rcases tour_cases (r := r) ha with ⟨-, -, h1⟩ | ⟨-, h1, -⟩
    · rw [h1] at happ
      exact absurd (congrArg List.length happ) (by simp)
    · exact h1

/-- If no piece begins with the stop header, the last one makes `main` write a stop. -/
theorem stopEcrit_of_actif {cmds : List Commande} {rs : List Recv} (h : Decoupe rs (session cmds))
    (ha : (Pont.main rs).actif = true) : StopEcrit cmds rs := by
  have hne : rs ≠ [] := by
    rintro rfl
    have := length_session cmds
    rw [← h.2] at this
    simp at this
  obtain ⟨pre, r, rfl⟩ : ∃ pre r, rs = pre ++ [r] :=
    ⟨rs.dropLast, rs.getLast hne, (List.dropLast_append_getLast hne).symm⟩
  have hpre := actif_of_append ha
  rw [main_concat] at ha
  rcases tour_cases (r := r) hpre with ⟨-, h1, -⟩ | ⟨-, -, -, h1⟩
  · rw [h1] at ha; cases ha
  · refine ⟨pre, r, [], _, rfl, ?_, by rw [main_concat]; exact h1, .inr (ordre_messageDe _)⟩
    rw [h.2, length_session]
    omega

/-- **When STOP is not swallowed.** However the session is cut, `main` does not return
before it has written a stop exactly when no piece begins with the stop header; and then
it does write one. -/
theorem stop_iff {cmds : List Commande} {rs : List Recv} (h : Decoupe rs (session cmds)) :
    (StopTransmis cmds rs ↔ ∀ r ∈ rs, ¬ r.Stop) ∧ ((∀ r ∈ rs, ¬ r.Stop) → StopEcrit cmds rs) := by
  refine ⟨⟨fun ht => ?_, fun hns n hret => ?_⟩, fun hns => stopEcrit_of_actif h (actif_iff.2 hns)⟩
  · by_contra hno
    have hina : (Pont.main rs).actif = false := by
      cases ha : (Pont.main rs).actif with
      | false => rfl
      | true => exact absurd (actif_iff.1 ha) hno
    have hs := ht 0 (by rw [List.replicate_zero, List.append_nil]; exact hina)
    rw [List.replicate_zero, List.append_nil] at hs
    rw [actif_of_stopEcrit h hs] at hina
    cases hina
  · -- the end of the connection never makes `main` return
    rw [(redit (actif_iff.2 hns) rfl n).1] at hret
    cases hret

/-- STOP behind half a command gets through. -/
theorem stop_second : StopEcrit [⟨1, 50⟩] [.un 1, .deux 50 (car 'S')] :=
  (stop_iff (by unfold Decoupe; decide)).2 (by decide)

/-- One brake order, then STOP, each in its own piece: `main` returns and the stop is lost. -/
theorem stop_perdu : Decoupe [.deux 1 50, .un (car 'S')] (session [⟨1, 50⟩]) ∧
    ¬ StopTransmis [⟨1, 50⟩] [.deux 1 50, .un (car 'S')] := by
  have hd : Decoupe [.deux 1 50, .un (car 'S')] (session [⟨1, 50⟩]) := by unfold Decoupe; decide
  refine ⟨hd, fun h => ?_⟩
  have hs := actif_of_stopEcrit hd (h 0 (by decide))
  revert hs
  decide

end ICar
