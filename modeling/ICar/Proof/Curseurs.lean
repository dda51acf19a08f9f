import ICar.Proof.Decoupe
import ICar.Proof.Liaison

/-!
# From the sliders to the actuators

A slider move is two characters of the application, one call of the bridge and one message of
the Arduino. The application's identifiers 1, 2 and 3 reach the bridge as numbers, and the
bridge writes numbers in decimal, so no message has a header of the `switch`: the car obeys no
move (`obeit_iff`), and every move is executed as an emergency stop (`curseurs_defaut`).
-/

namespace ICar

variable {mcu : Mcu} {ms : List Mouvement} {rs : List Recv} {new : List (List Int8)}

/-- The order a move asks for: the slider's actuator, and its value. -/
def Mouvement.ordre (m : Mouvement) : Ordre :=
  match m.curseur with
  | .seekFrein => .frein (Int8.ofNat m.progress.val)
  | .seekVar => .variateur (Int8.ofNat m.progress.val)
  | .seekDir => .direction (Int8.ofNat m.progress.val)

/-- `new` are the messages handed to `parseMessage` when the moves go through the bridge, two
bytes a piece. -/
def Transmis (mcu : Mcu) (ms : List Mouvement) (new : List (List Int8)) : Prop :=
  ∃ rs : List Recv, (∀ r ∈ rs, r.octets.length = 2) ∧
    rs.flatMap Recv.octets = octetsDe (ms.map Mouvement.commande) ∧ Lit mcu (appelsEcrits (Pont.main rs).appels) new

/-- The messages executed are the moves, in order, and none is executed by the default
branch. -/
def Obeit (mcu : Mcu) (ms : List Mouvement) : Prop :=
  ∀ new, Transmis mcu ms new → new.map ordre = ms.map Mouvement.ordre ∧ ∀ t ∈ new, ordre t ≠ .defaut

/-- No identifier is the stop header. -/
theorem id_ne_stop (c : Curseur) : c.id.val ≠ 'S'.toNat := by cases c <;> decide

/-- **The calls are the moves**, their identifiers as numbers. -/
theorem appels_curseurs (h2 : ∀ r ∈ rs, r.octets.length = 2)
    (h : rs.flatMap Recv.octets = octetsDe (ms.map Mouvement.commande)) :
    (Pont.main rs).appels = ms.map fun m => ((m.curseur.id.val : ℤ), (m.progress.val : ℤ)) := by
  have hS : ∀ c ∈ ms.map Mouvement.commande, c.header.val ≠ 'S'.toNat := by
    intro c hc
    obtain ⟨m, -, rfl⟩ := List.mem_map.1 hc
    exact id_ne_stop m.curseur
  rw [(decode_entiers hS h2 h).1, List.map_map]
  rfl

/-- One message per move, and each is executed by the default branch. -/
theorem curseurs_defaut (h : Transmis mcu ms new) :
    new = ms.map (fun m => messageDe (m.curseur.id.val, m.progress.val)) ∧ ∀ t ∈ new, ordre t = .defaut := by
  obtain ⟨rs, h2, hrs, hlit⟩ := h
  rw [appels_curseurs h2 hrs] at hlit
  have hnew := lit_appels hlit
  rw [List.map_map] at hnew
  refine ⟨hnew, fun t ht => ?_⟩
  rw [hnew] at ht
  obtain ⟨m, -, rfl⟩ := List.mem_map.1 ht
  exact ordre_messageDe _

/-- Every list of moves can be delivered. -/
theorem transmis_curseurs (mcu : Mcu) (ms : List Mouvement) :
    Transmis mcu ms (ms.map fun m => messageDe (m.curseur.id.val, m.progress.val)) := by
  set rs : List Recv := (ms.map Mouvement.commande).map fun c =>
    .deux (UInt8.ofNat c.header).toInt8 (UInt8.ofNat c.value).toInt8
  have h2 : ∀ r ∈ rs, r.octets.length = 2 := by
    intro r hr
    obtain ⟨c, -, rfl⟩ := List.mem_map.1 hr
    rfl
  have hrs : rs.flatMap Recv.octets = octetsDe (ms.map Mouvement.commande) := by
    simp [rs, octetsDe, List.flatMap_map, List.map_flatMap, Commande.send_eq, Recv.octets]
  obtain ⟨new, hlit⟩ : ∃ new, Lit mcu (appelsEcrits (Pont.main rs).appels) new := ⟨_, lit_scan mcu _⟩
  have hnew := lit_appels hlit
  rw [appels_curseurs h2 hrs, List.map_map] at hnew
  subst hnew
  exact ⟨rs, h2, hrs, hlit⟩

/-- **When the car obeys the sliders.** Exactly when no slider is moved. -/
theorem obeit_iff (mcu : Mcu) (ms : List Mouvement) : Obeit mcu ms ↔ ms = [] := by
  constructor
  · intro h
    cases ms with
    | nil => rfl
    | cons m ms =>
      have ht := transmis_curseurs mcu (m :: ms)
      exact absurd (ordre_messageDe _) ((h _ ht).2 _ List.mem_cons_self)
  · rintro rfl new hnew
    rw [(curseurs_defaut hnew).1]
    simp

/-- The brake slider moved to 50: the Arduino receives `150` and stops the car. -/
theorem not_obeit_frein : ¬ Obeit .atmega328P [⟨.seekFrein, 50⟩] ∧
    Transmis .atmega328P [⟨.seekFrein, 50⟩] [[car '1', car '5', car '0', car '\n']] := by
  have ht := transmis_curseurs .atmega328P [⟨.seekFrein, 50⟩]
  exact ⟨fun h => absurd (ordre_messageDe _) ((h _ ht).2 _ List.mem_cons_self), ht⟩

end ICar
