import ICar.Proof.Pont

/-!
# The application's stream, cut by TCP

The application sends commands of two bytes; `recv` delivers them in pieces of one or two
bytes. `decode_iff`: the commands passed on are those of the application exactly when every
piece is a whole command.
-/

namespace ICar

variable {r : Recv}

/-- The pieces deliver the stream, one or two bytes at a time. -/
def Decoupe (rs : List Recv) (xs : List Int8) : Prop :=
  (∀ r ∈ rs, r.octets ≠ []) ∧ rs.flatMap Recv.octets = xs

/-- The application's bytes for a list of commands, as `main` reads them. -/
def octetsDe (cmds : List Commande) : List Int8 := (cmds.flatMap Commande.send).map UInt8.toInt8

/-- The calls are the application's commands, and no value has been taken for the stop
header. -/
def DecodeFidele (cmds : List Commande) (rs : List Recv) : Prop :=
  (Pont.main rs).appels = cmds.map (fun c => ((c.header.val : ℤ), (c.value.val : ℤ))) ∧
    (Pont.main rs).actif = true

/-- A byte below 128 is its own value as a `char`. -/
theorem toInt_octet : ∀ n : Fin 128, (UInt8.ofNat n).toInt8.toInt = n.val := by decide +kernel

theorem octetsDe_cons (c : Commande) (cmds : List Commande) :
    octetsDe (c :: cmds) = (UInt8.ofNat c.header).toInt8 :: (UInt8.ofNat c.value).toInt8 :: octetsDe cmds := by
  simp [octetsDe, Commande.send_eq]

theorem length_octetsDe (cmds : List Commande) : (octetsDe cmds).length = 2 * cmds.length := by
  induction cmds with
  | nil => rfl
  | cons c cmds ih => rw [octetsDe_cons]; simp only [List.length_cons, ih]; omega

theorem deux_of_length (h : r.octets.length = 2) : ∃ a b, r = .deux a b := by
  cases r with
  | deux a b => exact ⟨a, b, rfl⟩
  | un a => simp [Recv.octets] at h
  | ferme => simp [Recv.octets] at h
  | erreur => simp [Recv.octets] at h

/-- Whole pieces of the application's bytes are its commands. -/
theorem decoupe_entiers {cmds : List Commande} : ∀ {rs : List Recv}, (∀ r ∈ rs, r.octets.length = 2) →
    rs.flatMap Recv.octets = octetsDe cmds →
    rs = cmds.map fun c => .deux (UInt8.ofNat c.header).toInt8 (UInt8.ofNat c.value).toInt8 := by
  induction cmds with
  | nil =>
    intro rs h2 hrs
    cases rs with
    | nil => rfl
    | cons r rs =>
      obtain ⟨a, b, rfl⟩ := deux_of_length (h2 _ List.mem_cons_self)
      cases hrs
  | cons c cmds ih =>
    intro rs h2 hrs
    rw [octetsDe_cons] at hrs
    cases rs with
    | nil => cases hrs
    | cons r rs =>
      obtain ⟨a, b, rfl⟩ := deux_of_length (h2 _ List.mem_cons_self)
      simp only [List.flatMap_cons, Recv.octets, List.cons_append, List.nil_append, List.cons.injEq] at hrs
      rw [List.map_cons, hrs.1, hrs.2.1, ← ih (fun q hq => h2 q (List.mem_cons_of_mem _ hq)) hrs.2.2]

theorem length_octets_le (r : Recv) : r.octets.length ≤ 2 := by cases r <;> simp [Recv.octets]

theorem length_flatMap_le (rs : List Recv) : (rs.flatMap Recv.octets).length ≤ 2 * rs.length := by
  induction rs with
  | nil => simp
  | cons r rs ih =>
    have := length_octets_le r
    simp only [List.flatMap_cons, List.length_append, List.length_cons]
    omega

/-- As many pieces as commands means whole pieces. -/
theorem entiers_of_length : ∀ {rs : List Recv}, (rs.flatMap Recv.octets).length = 2 * rs.length →
    ∀ r ∈ rs, r.octets.length = 2 := by
  intro rs
  induction rs with
  | nil => simp
  | cons r rs ih =>
    intro h q hq
    have h1 := length_octets_le r
    have h2 := length_flatMap_le rs
    simp only [List.flatMap_cons, List.length_append, List.length_cons] at h
    rcases List.mem_cons.1 hq with rfl | hq
    · omega
    · exact ih (by omega) q hq

/-- Whole pieces are decoded faithfully: no header is the stop's. -/
theorem decode_entiers {cmds : List Commande} {rs : List Recv} (hS : ∀ c ∈ cmds, c.header.val ≠ 'S'.toNat)
    (h2 : ∀ r ∈ rs, r.octets.length = 2) (h : rs.flatMap Recv.octets = octetsDe cmds) : DecodeFidele cmds rs := by
  have hrs := decoupe_entiers h2 h
  have ha : (Pont.main rs).actif = true := by
    rw [actif_iff, hrs]
    intro r hr hstop
    obtain ⟨c, hc, rfl⟩ := List.mem_map.1 hr
    have h83 : (UInt8.ofNat c.header).toInt8 = car 'S' := by simpa [Recv.Stop, Recv.octets] using hstop
    have := congrArg Int8.toInt h83
    rw [toInt_octet, show (car 'S').toInt = ('S'.toNat : ℤ) by decide] at this
    exact hS c hc (by exact_mod_cast this)
  refine ⟨?_, ha⟩
  rw [appels_entiers ha h2, hrs, List.filterMap_map]
  simp only [Function.comp_def, Recv.commande, toInt_octet, List.filterMap_eq_map']

/-- **When the decoding does not depend on the cutting of the stream.** Exactly when no
piece is cut inside a command. -/
theorem decode_iff {cmds : List Commande} {rs : List Recv} (hS : ∀ c ∈ cmds, c.header.val ≠ 'S'.toNat)
    (h : Decoupe rs (octetsDe cmds)) : DecodeFidele cmds rs ↔ ∀ r ∈ rs, r.octets.length = 2 := by
  constructor
  · rintro ⟨happ, ha⟩
    -- one call per piece, one call per command
    have hlen := length_appels ha
    rw [happ, List.length_map] at hlen
    apply entiers_of_length
    rw [h.2, length_octetsDe, hlen]
  · exact fun h2 => decode_entiers hS h2 h.2

/-- A value equal to the stop header is passed on when its piece is whole. -/
theorem decode_valeur_83 : DecodeFidele [⟨1, 83⟩, ⟨2, 40⟩] [.deux 1 83, .deux 2 40] :=
  (decode_iff (by decide) (by unfold Decoupe; decide)).2 (by decide)

/-- One command cut in two: its header is paired with the empty buffer, and its value is
taken for a header. -/
theorem decode_coupe : Decoupe [.un 1, .un 50] (octetsDe [⟨1, 50⟩]) ∧
    ¬ DecodeFidele [⟨1, 50⟩] [.un 1, .un 50] := by
  unfold Decoupe DecodeFidele; decide

end ICar
