import ICar.Proof.Chaine

/-!
# The life of the application

`activite`: in every run of `ConnectedActivity`, whatever the user does and whenever the connection
comes, the bytes written are those of the moves, two each, and then the stop header if STOP was
touched. The process ends with an exception exactly when a slider is moved or STOP touched while the
socket is not open: before the connection, or a slider after STOP.
-/

namespace ICar

variable {es : List EvAppli} {a : Appli × List UInt8}

/-- The application alone, with the bytes written to its socket. -/
def application : Sys (Appli × List UInt8) EvAppli where
  init := ({}, [])
  step s e := (s.1.step e).map fun r => (r.1, s.2 ++ r.2)

/-- The slider moves of a list of events. -/
def mouvementsDe (es : List EvAppli) : List Mouvement := es.filterMap fun
  | .bouge m => some m
  | _ => none

/-- What has been written after events without exception. -/
def ecrits (es : List EvAppli) : List UInt8 :=
  (mouvementsDe es).flatMap (fun m => m.commande.send) ++ if .touche ∈ es then onTouch else []

/-- The events on which the application writes to its socket. -/
def EvAppli.ecrit : EvAppli → Prop
  | .bouge _ | .touche => True
  | .connecte | .echoue => False

/-- Each of the events that write came between the connection and STOP. -/
def Regle (es : List EvAppli) : Prop :=
  ∀ es₁ e es₂, es = es₁ ++ e :: es₂ → e.ecrit → .connecte ∈ es₁ ∧ .touche ∉ es₁

/-- **Before any exception**: the state is that of the events, all moves before STOP. -/
structure Vie (es : List EvAppli) (a : Appli × List UInt8) : Prop where
  plantee : a.1.plantee = false
  connexion : a.1.connexion = true → .connecte ∉ es
  socket : a.1.socket =
    if .touche ∈ es then .fermee else if .connecte ∈ es then .ouverte else .null
  stopButton : a.1.stopButton = true ↔ .touche ∉ es
  finie : a.1.finie = true ↔ .touche ∈ es ∨ .echoue ∈ es
  ordre : .touche ∈ es → .connecte ∈ es
  regle : Regle es
  octets : a.2 = ecrits es

theorem vie_debut : Vie [] application.init where
  plantee := rfl
  connexion _ := List.not_mem_nil
  socket := rfl
  stopButton := by simp [application]
  finie := by simp [application]
  ordre h := absurd h List.not_mem_nil
  regle es₁ e es₂ h := absurd h (by simp)
  octets := rfl

theorem Regle.concat {e : EvAppli} (h : Regle es) (he : e.ecrit → .connecte ∈ es ∧ .touche ∉ es) :
    Regle (es ++ [e]) := by
  intro es₁ e' es₂ heq he'
  rcases List.eq_nil_or_concat' es₂ with rfl | ⟨l, x, rfl⟩
  · obtain ⟨rfl, hx⟩ := List.append_inj' heq rfl
    cases hx
    exact he he'
  · rw [← List.cons_append, ← List.append_assoc] at heq
    obtain ⟨rfl, -⟩ := List.append_inj' heq rfl
    exact h es₁ e' l rfl he'

/-- What a move adds to the bytes. -/
theorem ecrits_bouge (m : Mouvement) (ht : .touche ∉ es) : ecrits (es ++ [.bouge m]) = ecrits es ++ m.commande.send := by
  unfold ecrits mouvementsDe
  simp [ht]

/-- What STOP adds. -/
theorem ecrits_touche (ht : .touche ∉ es) : ecrits (es ++ [.touche]) = ecrits es ++ onTouch := by
  unfold ecrits mouvementsDe
  simp [ht]

/-- The connection writes nothing. -/
theorem ecrits_silence {e : EvAppli} (he : ¬ e.ecrit) : ecrits (es ++ [e]) = ecrits es := by
  cases e with
  | connecte => simp [ecrits, mouvementsDe]
  | echoue => simp [ecrits, mouvementsDe]
  | bouge m => exact absurd trivial he
  | touche => exact absurd trivial he

/-- The socket is open from the connection to STOP. -/
theorem Vie.ouverte (h : Vie es a) : a.1.socket = .ouverte ↔ .connecte ∈ es ∧ .touche ∉ es := by
  rw [h.socket]
  by_cases ht : .touche ∈ es
  · simp [ht]
  · by_cases hc : .connecte ∈ es <;> simp [ht, hc]

/-- **One event**: the life goes on, or ends on a socket that is not open. -/
theorem Vie.step {e : EvAppli} {a' : Appli × List UInt8} (h : Vie es a) (hstep : application.step a e = some a') :
    Vie (es ++ [e]) a' ∨ (e.ecrit ∧ a.1.socket ≠ .ouverte ∧ a'.1.plantee = true ∧ a'.2 = a.2) := by
  obtain ⟨⟨a₁, bs⟩, hs, rfl⟩ := Option.map_eq_some_iff.1 hstep
  clear hstep
  unfold Appli.step at hs
  rw [h.plantee, if_neg Bool.false_ne_true] at hs
  cases e with
  | connecte =>
    dsimp only at hs
    split at hs <;> cases hs
    rename_i hcon
    have ht : .touche ∉ es := fun ht => h.connexion hcon (h.ordre ht)
    left
    refine ⟨rfl, fun hc => Bool.noConfusion hc, ?_, ?_, ?_, ?_, h.regle.concat fun he => he.elim, ?_⟩
    · simp [ht]
    · simp [h.stopButton]
    · simp [h.finie]
    · simp [ht]
    · rw [ecrits_silence id, List.append_nil]
      exact h.octets
  | echoue =>
    dsimp only at hs
    split at hs <;> cases hs
    rename_i hcon
    left
    refine ⟨rfl, fun hc => Bool.noConfusion hc, ?_, ?_, ?_, ?_, h.regle.concat fun he => he.elim, ?_⟩
    · simp [h.socket]
    · simp [h.stopButton]
    · simp
    · simpa using h.ordre
    · rw [ecrits_silence id, List.append_nil]
      exact h.octets
  | bouge m =>
    dsimp only at hs
    split at hs <;> cases hs
    · rename_i ho
      obtain ⟨hc, ht⟩ := h.ouverte.1 ho
      left
      refine ⟨rfl, fun hcon => absurd hc (h.connexion hcon), ?_, ?_, ?_, ?_, h.regle.concat fun _ => ⟨hc, ht⟩, ?_⟩
      · simp [ho, ht, hc]
      · simp [h.stopButton]
      · simp [h.finie]
      · simp [hc]
      · rw [ecrits_bouge m ht, ← h.octets]
    · exact .inr ⟨trivial, by simp [*], rfl, List.append_nil _⟩
    · exact .inr ⟨trivial, by simp [*], rfl, List.append_nil _⟩
  | touche =>
    dsimp only at hs
    split at hs
    · split at hs <;> cases hs
      · rename_i ho
        obtain ⟨hc, ht⟩ := h.ouverte.1 ho
        left
        refine ⟨rfl, fun hcon => absurd hc (h.connexion hcon), ?_, ?_, ?_, ?_, h.regle.concat fun _ => ⟨hc, ht⟩, ?_⟩
        · simp
        · simp
        · simp
        · simp [hc]
        · rw [ecrits_touche ht, ← h.octets]
      · exact .inr ⟨trivial, by simp [*], rfl, List.append_nil _⟩
      · exact .inr ⟨trivial, by simp [*], rfl, List.append_nil _⟩
    · cases hs

/-- **A run of the application** goes on without exception, or has ended with one at its last event. -/
theorem vie_ou_fin (h : application.run application.init es = some a) :
    Vie es a ∨ ∃ es₁ e a₁, es = es₁ ++ [e] ∧ Vie es₁ a₁ ∧ e.ecrit ∧ a₁.1.socket ≠ .ouverte ∧
      a.1.plantee = true ∧ a.2 = a₁.2 := by
  induction es using List.reverseRecOn generalizing a with
  | nil =>
    cases h
    exact .inl vie_debut
  | append_singleton es e ih =>
    obtain ⟨b, hb, hlast⟩ := Sys.run_append_some.1 h
    rw [Sys.run_cons, Option.bind_eq_some_iff] at hlast
    obtain ⟨a', hstep, ha'⟩ := hlast
    cases ha'
    rcases ih hb with hv | ⟨-, -, -, -, -, -, -, hp, -⟩
    · rcases hv.step hstep with hv' | ⟨he, hso, hp, ho⟩
      · exact .inl hv'
      · exact .inr ⟨es, e, b, rfl, hv, he, hso, hp, ho⟩
    · -- nothing follows an exception
      obtain ⟨r, hr, -⟩ := Option.map_eq_some_iff.1 hstep
      unfold Appli.step at hr
      rw [if_pos hp] at hr
      cases hr

/-- **The life of the application**, over every run: an exception ends it exactly when its last event
moves a slider or touches STOP with no connection before, or after STOP; and the bytes written
are those of the events, the last one apart if it ended in an exception. -/
theorem activite (h : application.run application.init es = some a) :
    (a.1.plantee = true ↔ ∃ es₁ e, es = es₁ ++ [e] ∧ e.ecrit ∧ (.connecte ∉ es₁ ∨ .touche ∈ es₁)) ∧
    a.2 = ecrits (if a.1.plantee then es.dropLast else es) := by
  rcases vie_ou_fin h with hv | ⟨es₁, e, a₁, rfl, hv, he, hso, hp, ho⟩
  · rw [hv.plantee]
    refine ⟨iff_of_false Bool.false_ne_true ?_, hv.octets⟩
    rintro ⟨es₁, e, rfl, he, hfin⟩
    obtain ⟨hc, ht⟩ := hv.regle es₁ e [] rfl he
    exact hfin.elim (fun hn => hn hc) fun hy => ht hy
  · have hfin : .connecte ∉ es₁ ∨ .touche ∈ es₁ := by
      rw [Ne, hv.ouverte] at hso
      tauto
    refine ⟨iff_of_true hp ⟨es₁, e, rfl, he, hfin⟩, ?_⟩
    rw [ho, if_pos hp, List.dropLast_concat]
    exact hv.octets

/-- A move, STOP, and a move too many. -/
theorem activite_trop_tard : ∃ a, application.run application.init
      [.connecte, .bouge ⟨.seekVar, 40⟩, .touche, .bouge ⟨.seekFrein, 10⟩] = some a ∧
    a.1.plantee = true ∧ a.2 = [2, 40, 83] := by
  have hrun : application.run application.init
      [.connecte, .bouge ⟨.seekVar, 40⟩, .touche, .bouge ⟨.seekFrein, 10⟩] = some _ := rfl
  obtain ⟨hp, ho⟩ := activite hrun
  have hplantee := hp.2 ⟨[.connecte, .bouge ⟨.seekVar, 40⟩, .touche], .bouge ⟨.seekFrein, 10⟩, rfl, trivial, .inr (by simp)⟩
  refine ⟨_, hrun, hplantee, ho.trans ?_⟩
  rw [if_pos hplantee]
  decide

end ICar
