import ICar.Proof.Curseurs
import ICar.Proof.Gaz
import ICar.Spec.Chaine

/-!
# What the chain does, in any order of steps

* `chaine_sure`: the bridge writes digits, signs and newlines only, so whatever the driver does,
  however TCP cuts the stream and whatever the serial link loses, every message of the Arduino
  is executed by the default branch: the throttle is never powered.
* `conserve`: without loss, what the bridge has written is what the Arduino has handed over, the
  text it holds and what is on the link.
* `aligne`: with whole pieces, the moves are those passed on by the bridge and those on the
  socket, in order.
* `chaine_livre`: so the messages executed are the first of the moves, and all of them once
  nothing is in flight; and from every state that can be reached, nothing in flight can be
  reached (`chaine_aboutit`).
-/

namespace ICar

open Framing

variable {mcu : Mcu} {m m' : Machine} {c c' : Chaine} {es : List EvChaine} {t : List Int8}

/-! ## Digits, signs and newlines -/

/-- What the bridge writes. -/
def Chiffre (x : Int8) : Prop := x = car '\n' ∨ ∃ c : Char, (c = '-' ∨ c.isDigit = true) ∧ x = car c

theorem chiffre_messageDe (a : ℤ × ℤ) : ∀ x ∈ messageDe a, Chiffre x := by
  intro x hx
  rw [messageDe_eq] at hx
  rcases List.mem_append.1 hx with hx | hx
  · obtain ⟨c, hc, rfl⟩ := List.mem_map.1 hx
    rcases List.mem_append.1 hc with hc | hc <;> exact .inr ⟨c, toText_chars hc, rfl⟩
  · exact .inl (List.mem_singleton.1 hx)

theorem chiffre_ecrit (p : Pont) (r : Recv) : ∀ b ∈ p.ecrit r, Chiffre b.toInt8 := by
  intro b hb
  obtain ⟨a, -, ha⟩ := List.mem_flatMap.1 hb
  exact chiffre_messageDe a _ (List.mem_map_of_mem ha)

/-- **A text of such characters is no order.** -/
theorem ordre_of_chiffre (h : ∀ x ∈ t, Chiffre x) : ordre t = .defaut := by
  rw [ordre_defaut_iff]
  unfold Connu
  cases t with
  | nil => decide
  | cons x t =>
    have h0 : charAt (x :: t) 0 = x := rfl
    rw [h0]
    rcases h x List.mem_cons_self with rfl | ⟨c, hc, rfl⟩
    · decide
    · obtain ⟨-, h1, h2, h3, h4, h5⟩ := car_of_digit hc
      simp [h1, h2, h3, h4, h5]

/-! ## The Arduino on such a line -/

/-- The statements of the default branch. -/
def stmtsDefaut : List Stmt := .varLock :: (arret ++ [.videInputString])

theorem parseMessage_defaut (h : ordre t = .defaut) : parseMessage t = stmtsDefaut :=
  parseMessage_inconnu (ordre_defaut_iff.1 h)

/-- The orders of start-up and of a stop, and those between them. -/
structure OrdresArret (o : Ordres) : Prop where
  direction : o.direction = 500 ∨ o.direction = 50
  frein : o.frein = 0 ∨ o.frein = 100
  variateur : o.variateur = 0

theorem OrdresArret.apres {o : Ordres} (h : OrdresArret o) {i : Stmt} (hi : i ∈ stmtsDefaut) :
    OrdresArret (o.apres i) := by
  unfold stmtsDefaut arret at hi
  simp only [List.cons_append, List.nil_append, List.mem_cons, List.not_mem_nil, or_false] at hi
  rcases hi with rfl | rfl | rfl | rfl | rfl | rfl | rfl | rfl
  · exact h
  · exact h
  · exact { h with direction := .inr rfl }
  · exact h
  · exact { h with frein := .inr rfl }
  · exact h
  · exact { h with variateur := rfl }
  · exact h

/-- The Arduino has only ever met stops, and reads a text that is no order. -/
structure Inoffensif (m : Machine) : Prop where
  texte : ∀ x ∈ m.sketch.inputString, Chiffre x
  journal : ∀ t ∈ m.journal, ordre t = .defaut
  reste : ∀ i ∈ m.reste, i ∈ stmtsDefaut
  ordres : OrdresArret m.sketch.ordres
  gaz : m.sketch.gaz = 0
  promis : m.promis = if m.journal = [] then ⟨500, 0, 0⟩ else ⟨50, 100, 0⟩

theorem inoffensif_init : Inoffensif (machine mcu).init where
  texte := by intro x hx; cases hx
  journal := by intro t ht; cases ht
  reste := by intro i hi; cases hi
  ordres := by rw [ordres_setup]; exact ⟨.inl rfl, .inl rfl, rfl⟩
  gaz := by cases mcu <;> decide +kernel
  promis := by rw [promis_of_idle rfl, ordres_setup]; rfl

theorem Inoffensif.octet (h : Inoffensif m) {b : UInt8} (hb : Chiffre b.toInt8) :
    Inoffensif (m.octet b) := by
  have htexte : ∀ x ∈ m.sketch.inputString ++ [b.toInt8], Chiffre x := by
    intro x hx
    rcases List.mem_append.1 hx with hx | hx
    · exact h.texte x hx
    · rw [List.mem_singleton.1 hx]; exact hb
  have hdef := ordre_of_chiffre htexte
  unfold Machine.octet
  split
  · refine ⟨htexte, fun t ht => ?_, ?_, h.ordres, h.gaz, ?_⟩
    · rcases List.mem_append.1 ht with ht | ht
      · exact h.journal t ht
      · rw [List.mem_singleton.1 ht]; exact hdef
    · dsimp only
      rw [parseMessage_defaut hdef]
      exact fun i hi => hi
    · -- the message settles the orders to come
      unfold Machine.promis
      dsimp only
      rw [parseMessage_defaut hdef, if_neg (by simp)]
      exact foldl_arret _
  · exact ⟨htexte, h.journal, h.reste, h.ordres, h.gaz, h.promis⟩

theorem Inoffensif.stmt (h : Inoffensif m) {i : Stmt} {l : List Stmt} (hr : m.reste = i :: l) (s : Sensors)
    (hpromis : (Machine.mk (i.exec s m.sketch) l m.journal).promis = m.promis) :
    Inoffensif ⟨i.exec s m.sketch, l, m.journal⟩ := by
  have hi : i ∈ stmtsDefaut := h.reste i (hr ▸ List.mem_cons_self)
  refine ⟨fun x hx => ?_, h.journal, fun j hj => h.reste j (hr ▸ List.mem_cons_of_mem _ hj), ?_, ?_,
    hpromis.trans h.promis⟩
  · rw [exec_inputString] at hx
    split at hx
    · cases hx
    · exact h.texte x hx
  · rw [exec_ordres]; exact h.ordres.apres hi
  · rw [exec_gaz]
    cases i with
    | varCommande v =>
      have hv : v = 0 := by simpa [stmtsDefaut, arret] using hi
      rw [hv]
      rfl
    | varLock => rfl
    | _ => exact h.gaz

theorem Inoffensif.tick (h : Inoffensif m) (s : Sensors)
    (hpromis : Machine.promis { m with sketch := m.sketch.isr s } = m.promis) :
    Inoffensif { m with sketch := m.sketch.isr s } := by
  refine ⟨?_, h.journal, h.reste, ?_, ?_, hpromis.trans h.promis⟩
  · rw [isr_inputString]; exact h.texte
  · rw [isr_ordres]; exact h.ordres
  · have hv : m.sketch.commandeVariateur = 0 := h.ordres.variateur
    rw [gaz_isr, hv]
    rfl

theorem Inoffensif.step (h : Inoffensif m) {e : Ev} (he : ∀ b, e = .octet b → Chiffre b.toInt8)
    (hstep : (machine mcu).step m e = some m') : Inoffensif m' := by
  rcases step_cases hstep with ⟨b, rfl, -, rfl⟩ | ⟨s, i, l, rfl, hr, rfl⟩ | ⟨s, rfl, rfl⟩
  · exact h.octet (he b rfl)
  · exact h.stmt hr s (promis_step (fun b hb => by cases hb) hstep)
  · exact h.tick s (promis_step (fun b hb => by cases hb) hstep)

/-! ## Safety -/

theorem inoffensif_chaine (hc : (chaine mcu).Reach c) :
    Inoffensif c.arduino ∧ ∀ b ∈ c.serie, Chiffre b.toInt8 := by
  refine hc.inv (I := fun c => Inoffensif c.arduino ∧ ∀ b ∈ c.serie, Chiffre b.toInt8)
    ⟨inoffensif_init, fun b hb => by cases hb⟩ (fun c e c' _ ⟨hm, hs⟩ h => ?_)
  rcases chaine_cases h with ⟨x, a, bs, -, -, rfl⟩ | ⟨r, -, -, -, rfl⟩ | ⟨b, m, l, -, hl, hm', rfl⟩ |
    ⟨x, m, -, hx, hm', rfl⟩ | ⟨i, -, rfl⟩
  · exact ⟨hm, hs⟩
  · refine ⟨hm, fun b hb => ?_⟩
    rcases List.mem_append.1 hb with hb | hb
    · exact hs b hb
    · exact chiffre_ecrit c.pont r b hb
  · have hstep : (machine mcu).step c.arduino (.octet b) = some m := hm'
    rw [hl] at hs
    refine ⟨hm.step (fun b' hb' => ?_) hstep, fun b' hb' => hs b' (List.mem_cons_of_mem _ hb')⟩
    cases hb'
    exact hs b List.mem_cons_self
  · have hstep : (machine mcu).step c.arduino x = some m := hm'
    exact ⟨hm.step (fun b hb => absurd hb (hx b)) hstep, hs⟩
  · exact ⟨hm, fun b hb => hs b ((List.eraseIdx_sublist _ _).subset hb)⟩

/-- Every message has been executed as a stop, and the throttle has no power. Between messages,
the orders are those of start-up or of a stop. -/
structure Arretee (m : Machine) : Prop where
  journal : ∀ t ∈ m.journal, ordre t = .defaut
  ordres : OrdresArret m.sketch.ordres
  gaz : m.sketch.gaz = 0
  repos : m.reste = [] → m.sketch.ordres = if m.journal = [] then ⟨500, 0, 0⟩ else ⟨50, 100, 0⟩

/-- **The chain never powers the car**: in every state of every run of the three parties, with
any loss on the serial link. -/
theorem chaine_sure (hc : (chaine mcu).Reach c) : Arretee c.arduino := by
  have h := (inoffensif_chaine hc).1
  refine ⟨h.journal, h.ordres, h.gaz, fun hr => ?_⟩
  rw [← promis_of_idle hr]
  exact h.promis

/-- The brake's slider at 100: its message reaches the Arduino. -/
theorem chaine_sure_frein : ∃ c, (chaine .atmega328P).Reach c ∧ c.arduino.journal = [messageDe (1, 100)] ∧
    Arretee c.arduino := by
  have hrun : (chaine .atmega328P).run (chaine .atmega328P).init
      [.appli .connecte, .appli (.bouge ⟨.seekFrein, 100⟩), .recv (.deux 1 100), .arduino (.octet 49),
        .arduino (.octet 49), .arduino (.octet 48), .arduino (.octet 48), .arduino (.octet 10)] = some _ := rfl
  exact ⟨_, ⟨_, hrun⟩, rfl, chaine_sure ⟨_, hrun⟩⟩

/-! ## Conservation on the serial link -/

/-- No byte of the serial link is lost. -/
def EvChaine.SansPerte : EvChaine → Prop
  | .perte _ => False
  | _ => True

/-- The bytes that the bridge has written: handed over, kept or on the link. -/
def Conserve (c : Chaine) : Prop :=
  c.arduino.journal.flatten ++ c.arduino.tampon ++ c.serie.map UInt8.toInt8 =
    (appelsEcrits c.pont.appels).map UInt8.toInt8

/-- The Arduino keeps every byte that it reads. -/
theorem octet_garde (hm : (machine mcu).Reach m) {e : Ev} (h : (machine mcu).step m e = some m') :
    m'.journal.flatten ++ m'.tampon = m.journal.flatten ++ m.tampon ++ (octets [e]).map UInt8.toInt8 := by
  have hq := recus_step (reach_ok hm) h
  have h1 : m'.journal = (recoit m.recus e).1 := congrArg Prod.fst hq
  have h2 : m'.tampon = (recoit m.recus e).2 := congrArg Prod.snd hq
  rw [h1, h2]
  cases e with
  | octet b => exact flatten_feed m.recus b.toInt8
  | stmt s => exact (List.append_nil _).symm
  | tick s => exact (List.append_nil _).symm

/-- The calls of an iteration are those made before and its own. -/
theorem appels_tour (p : Pont) (r : Recv) : (p.tour r).appels = p.appels ++ (p.tour r).appels.drop p.appels.length := by
  cases ha : p.actif with
  | false => rw [tour_inactif ha, List.drop_length, List.append_nil]
  | true =>
    rcases tour_cases (r := r) ha with ⟨-, -, h⟩ | ⟨-, -, -, h⟩
    · rw [h, List.drop_length, List.append_nil]
    · rw [h, List.drop_left]

theorem appelsEcrits_tour (p : Pont) (r : Recv) :
    appelsEcrits (p.tour r).appels = appelsEcrits p.appels ++ p.ecrit r := by
  rw [appels_tour]
  exact List.flatMap_append

/-- **Nothing is lost or invented on the way to the Arduino.** -/
theorem conserve (hes : ∀ e ∈ es, e.SansPerte) (h : (chaine mcu).run (chaine mcu).init es = some c) :
    Conserve c := by
  have key := Sys.run_inv (M := chaine mcu) (I := fun c => (chaine mcu).Reach c ∧ Conserve c)
    (fun e he c c' hc hstep => ?_) ⟨.init, rfl⟩ h
  · exact key.2
  obtain ⟨hreach, hc⟩ := hc
  refine ⟨hreach.step hstep, ?_⟩
  unfold Conserve at hc ⊢
  rcases chaine_cases hstep with ⟨x, a, bs, -, -, rfl⟩ | ⟨r, -, -, -, rfl⟩ | ⟨b, m, l, -, hl, hm, rfl⟩ |
    ⟨x, m, -, hx, hm, rfl⟩ | ⟨i, rfl, -⟩
  · exact hc
  · unfold Chaine.recoit
    dsimp only
    rw [appelsEcrits_tour, List.map_append, List.map_append, ← List.append_assoc, hc]
  · -- a byte moves from the link to the text
    have hg := octet_garde (reach_arduino hreach) (e := .octet b) hm
    dsimp only
    rw [hg, ← hc, hl]
    simp
  · have hg := octet_garde (reach_arduino hreach) (e := x) hm
    have hnil : octets [x] = [] := by
      cases x with
      | octet b => exact absurd rfl (hx b)
      | _ => rfl
    dsimp only
    rw [hg, hnil, ← hc]
    simp
  · exact (hes _ he).elim

/-- The messages handed over and the text kept are the bytes read, split at newlines. -/
theorem framed_reach (hm : (machine mcu).Reach m) :
    Framed (car '\n') (m.journal.flatten ++ m.tampon) m.journal m.tampon := by
  obtain ⟨es, hes⟩ := hm
  have hq : scan (car '\n') ([], []) ((octets es).map UInt8.toInt8) = (m.journal, m.tampon) :=
    (recus_eq ok_init hes).symm
  have hf := framed_iff.2 hq
  rwa [hf.flatten]

/-- **The messages executed are the first of those written**; all of them, once the link is
empty. -/
theorem journal_appels (hc : (chaine mcu).Reach c) (h : Conserve c) :
    c.arduino.journal <+: c.pont.appels.map messageDe ∧
      (c.serie = [] → c.arduino.journal = c.pont.appels.map messageDe ∧ c.arduino.tampon = []) := by
  have hscan := framed_iff.1 (framed_reach (reach_arduino hc))
  have hall : scan (car '\n') ([], []) ((appelsEcrits c.pont.appels).map UInt8.toInt8) =
      (c.pont.appels.map messageDe, []) := by
    have hl : ∀ a ∈ c.pont.appels.map corpsDe, car '\n' ∉ a := by
      intro a ha
      obtain ⟨x, -, rfl⟩ := List.mem_map.1 ha
      exact corpsDe_ligne x
    rw [appelsEcrits_eq, scan_frames hl, List.nil_append, List.map_map]
    congr 1
    exact List.map_congr_left fun a _ => (messageDe_eq a).symm
  unfold Conserve at h
  rw [← h, scan_append, hscan] at hall
  constructor
  · have hfst : (scan (car '\n') (c.arduino.journal, c.arduino.tampon) (c.serie.map UInt8.toInt8)).1 =
        c.pont.appels.map messageDe := congrArg Prod.fst hall
    exact hfst ▸ prefix_scan _ _ _
  · intro hs
    rw [hs] at hall
    exact Prod.mk.inj hall

/-! ## Order on the socket -/

/-- The call that passes a move on. -/
def Mouvement.appel (m : Mouvement) : ℤ × ℤ := (m.curseur.id.val, m.progress.val)

/-- `recv` delivers a whole command, or the stop header. -/
def EvChaine.Entier : EvChaine → Prop
  | .recv r => r.octets.length = 2 ∨ r.Stop
  | _ => True

/-- The stop header, while it is on the socket. -/
def Chaine.fin (c : Chaine) : List UInt8 :=
  if c.appli.socket = .fermee ∧ c.pont.actif = true then onTouch else []

/-- The moves `attente` are on the socket, behind those that the bridge has passed on. -/
structure Aligne (c : Chaine) (attente : List Mouvement) : Prop where
  appels : c.appli.mouvements.map Mouvement.appel = c.pont.appels ++ attente.map Mouvement.appel
  prise : c.prise = attente.flatMap (fun m => m.commande.send) ++ c.fin
  actif : c.pont.actif = false → c.appli.socket = .fermee ∧ attente = []
  vide : c.appli.socket = .null → attente = []
  connexion : c.appli.connexion = true → c.appli.socket = .null

theorem onTouch_eq : onTouch = [(car 'S').toUInt8] := utf8_of_lt (by decide)

theorem send_mouvement (m : Mouvement) :
    m.commande.send = [UInt8.ofNat m.curseur.id.val, UInt8.ofNat m.progress.val] := Commande.send_eq _

theorem toInt8_eq_of_toUInt8 {a : Int8} {n : ℕ} (hn : n < 128) (h : a.toUInt8 = UInt8.ofNat n) : a.toInt = n := by
  have ha : a = (UInt8.ofNat n).toInt8 := by rw [← h, Int8.toInt8_toUInt8]
  rw [ha]
  exact toInt_octet ⟨n, hn⟩

/-- No move begins with the stop header. -/
theorem id_ne_S (m : Mouvement) : (car 'S').toUInt8 ≠ UInt8.ofNat m.curseur.id.val := by
  cases m.curseur <;> decide

theorem Aligne.actif_cons {m : Mouvement} {l : List Mouvement} (h : Aligne c (m :: l)) : c.pont.actif = true := by
  cases ha : c.pont.actif with
  | true => rfl
  | false => exact absurd (h.actif ha).2 (List.cons_ne_nil _ _)

/-- **The two characters of a move, received together, are passed on.** -/
theorem Aligne.deux {m : Mouvement} {l : List Mouvement} (h : Aligne c (m :: l)) {a b : Int8}
    (ha : a.toUInt8 = UInt8.ofNat m.curseur.id.val) (hb : b.toUInt8 = UInt8.ofNat m.progress.val) :
    Aligne (c.recoit (.deux a b)) l := by
  have hact := h.actif_cons
  have ha1 := toInt8_eq_of_toUInt8 m.curseur.id.isLt ha
  have hb1 := toInt8_eq_of_toUInt8 (by omega) hb
  rcases tour_cases (r := .deux a b) hact with ⟨hs, -⟩ | ⟨-, hact', -, happ⟩
  · cases hs
    exact absurd ha (id_ne_S m)
  · refine ⟨?_, ?_, fun hf => ?_, fun hn => absurd (h.vide hn) (List.cons_ne_nil _ _), h.connexion⟩
    · unfold Chaine.recoit
      dsimp only
      rw [happ, h.appels]
      simp [Recv.remplit, Mouvement.appel, ha1, hb1]
    · unfold Chaine.recoit Chaine.fin
      dsimp only
      rw [h.prise, List.flatMap_cons, send_mouvement]
      unfold Chaine.fin
      simp [Recv.octets, hact, hact']
    · cases hact'.symm.trans hf

/-- **The stop header, behind all moves, ends the bridge.** -/
theorem Aligne.stop (h : Aligne c []) (hf : c.appli.socket = .fermee) (hact : c.pont.actif = true) :
    Aligne (c.recoit (.un (car 'S'))) [] := by
  rcases tour_cases (r := .un (car 'S')) hact with ⟨-, hact', happ⟩ | ⟨hns, -⟩
  · refine ⟨?_, ?_, fun _ => ⟨hf, rfl⟩, fun _ => rfl, h.connexion⟩
    · unfold Chaine.recoit
      dsimp only
      rw [happ]
      exact h.appels
    · unfold Chaine.recoit
      dsimp only
      rw [h.prise]
      unfold Chaine.fin
      rw [if_pos ⟨hf, hact⟩, onTouch_eq]
      simp [Recv.octets, hact']
  · exact absurd rfl hns

/-- Of what `recv` can deliver, whole pieces are one of these two. -/
theorem Aligne.recv {attente : List Mouvement} (h : Aligne c attente) (hact : c.pont.actif = true) {r : Recv}
    (hr : r.octets.length = 2 ∨ r.Stop) (hd : r.octets.map Int8.toUInt8 <+: c.prise) :
    ∃ attente', Aligne (c.recoit r) attente' := by
  rw [h.prise] at hd
  obtain ⟨x, l, hx⟩ : ∃ x l, r.octets = x :: l := by
    cases ho : r.octets with
    | nil => simp [Recv.Stop, ho] at hr
    | cons x l => exact ⟨x, l, rfl⟩
  cases attente with
  | nil =>
    rw [List.flatMap_nil, List.nil_append] at hd
    unfold Chaine.fin at hd
    split at hd
    · rename_i hfin
      rw [onTouch_eq, hx, List.map_cons, List.cons_prefix_cons, List.prefix_nil, List.map_eq_nil_iff] at hd
      obtain ⟨h1, rfl⟩ := hd
      have hS : x = car 'S' := by rw [← Int8.toInt8_toUInt8 x, h1, Int8.toInt8_toUInt8]
      obtain rfl : r = .un (car 'S') := by
        cases r <;> simp_all [Recv.octets]
      exact ⟨[], h.stop hfin.1 hact⟩
    · rw [hx, List.map_cons, List.prefix_nil] at hd
      cases hd
  | cons m attente =>
    rw [List.flatMap_cons, send_mouvement] at hd
    have hns : ¬ r.Stop := by
      intro hs
      unfold Recv.Stop at hs
      rw [hx] at hs hd
      cases hs
      exact id_ne_S m (List.cons_prefix_cons.1 hd).1
    obtain ⟨a, b, rfl⟩ := deux_of_length (hr.resolve_right hns)
    obtain ⟨h1, h2⟩ := List.cons_prefix_cons.1 hd
    exact ⟨attente, h.deux h1 (List.cons_prefix_cons.1 h2).1⟩

theorem Aligne.appli {attente : List Mouvement} (h : Aligne c attente) {x : EvAppli} {a : Appli} {bs : List UInt8}
    (hx : c.appli.step x = some (a, bs)) : ∃ attente', Aligne { c with appli := a, prise := c.prise ++ bs } attente' := by
  rcases appli_cases hx with ⟨m, -, ho, rfl, rfl⟩ | ⟨-, ho, rfl, rfl⟩ | ⟨rfl, hm, hs⟩
  · -- a move joins those on the socket
    have hfin : c.fin = [] := by unfold Chaine.fin; rw [if_neg (by rw [ho]; simp)]
    refine ⟨attente ++ [m], ?_, ?_, fun hf => ?_, fun hn => ?_, h.connexion⟩
    · simp [h.appels]
    · unfold Chaine.fin
      rw [if_neg (by simp [ho]), h.prise, hfin]
      simp
    · have := (h.actif hf).1
      rw [ho] at this
      cases this
    · rw [show c.appli.socket = .null from hn] at ho
      cases ho
  · have hact : c.pont.actif = true := by
      cases hact : c.pont.actif with
      | true => rfl
      | false =>
        have := (h.actif hact).1
        rw [ho] at this
        cases this
    have hfin : c.fin = [] := by unfold Chaine.fin; rw [if_neg (by rw [ho]; simp)]
    refine ⟨attente, h.appels, ?_, fun hf => ?_, (fun hn => nomatch hn), fun hc => ?_⟩
    · unfold Chaine.fin
      rw [if_pos ⟨rfl, hact⟩, h.prise, hfin, List.append_nil]
    · rw [show c.pont.actif = false from hf] at hact
      cases hact
    · have := h.connexion hc
      rw [ho] at this
      cases this
  · rcases hs with ⟨hs, hconn⟩ | ⟨hs, hconn, hconn'⟩
    · refine ⟨attente, ?_, ?_, fun hf => ?_, fun hn => ?_, fun hc => ?_⟩
      · dsimp only
        rw [hm]
        exact h.appels
      · unfold Chaine.fin
        dsimp only
        rw [hs, List.append_nil]
        exact h.prise
      · dsimp only
        rw [hs]
        exact h.actif hf
      · exact h.vide (hs ▸ hn)
      · dsimp only
        rw [hs]
        exact h.connexion (hconn hc)
    · -- the connection: nothing was on the socket before it
      have hnull := h.connexion hconn
      have hatt := h.vide hnull
      have hact : c.pont.actif = true := by
        cases hact : c.pont.actif with
        | true => rfl
        | false =>
          have := (h.actif hact).1
          rw [hnull] at this
          cases this
      refine ⟨[], ?_, ?_, fun hf => ?_, fun _ => rfl, fun hc => ?_⟩
      · dsimp only
        rw [hm]
        exact hatt ▸ h.appels
      · have hp := h.prise
        rw [hatt] at hp
        unfold Chaine.fin at hp ⊢
        rw [if_neg (by rw [hnull]; simp)] at hp
        rw [if_neg (by simp [hs]), hp]
        rfl
      · rw [show c.pont.actif = false from hf] at hact
        cases hact
      · rw [show a.connexion = true from hc] at hconn'
        cases hconn'

/-- **Whole pieces keep the moves in order.** -/
theorem aligne (hes : ∀ e ∈ es, e.Entier) (h : (chaine mcu).run (chaine mcu).init es = some c) :
    ∃ attente, Aligne c attente := by
  refine Sys.run_inv (M := chaine mcu) (I := fun c => ∃ attente, Aligne c attente) (fun e he c c' hc hstep => ?_)
    ⟨[], rfl, rfl, fun hf => Bool.noConfusion hf, fun _ => rfl, fun _ => rfl⟩ h
  obtain ⟨attente, hc⟩ := hc
  rcases chaine_cases hstep with ⟨x, a, bs, -, hx, rfl⟩ | ⟨r, rfl, ha, hd, rfl⟩ | ⟨b, m, l, -, -, -, rfl⟩ |
    ⟨x, m, -, -, -, rfl⟩ | ⟨i, -, rfl⟩
  · exact hc.appli hx
  · exact hc.recv ha (hes _ he) hd.2.1
  · exact ⟨attente, { hc with }⟩
  · exact ⟨attente, { hc with }⟩
  · exact ⟨attente, { hc with }⟩

/-! ## Delivery -/

/-- An event of a faithful transport: nothing lost on the serial link, whole pieces on the
socket. -/
def EvChaine.Fidele (e : EvChaine) : Prop := e.SansPerte ∧ e.Entier

/-- The message that a move becomes. -/
def Mouvement.message (m : Mouvement) : List Int8 := messageDe m.appel

/-- With nothing on the socket, no move waits. -/
theorem Aligne.attente_nil {attente : List Mouvement} (h : Aligne c attente) (hp : c.prise = []) : attente = [] := by
  have hprise := h.prise
  rw [hp] at hprise
  cases attente with
  | nil => rfl
  | cons m l =>
    rw [List.flatMap_cons, send_mouvement] at hprise
    cases hprise

/-- Both halves of the way together. -/
theorem Aligne.journal {attente : List Mouvement} (h : Aligne c attente) (hc : (chaine mcu).Reach c)
    (hcons : Conserve c) : c.arduino.journal <+: c.appli.mouvements.map Mouvement.message ∧
      (c.prise = [] → c.serie = [] → c.arduino.journal = c.appli.mouvements.map Mouvement.message) := by
  obtain ⟨hpre, hall⟩ := journal_appels hc hcons
  have hmouv : c.appli.mouvements.map Mouvement.message =
      c.pont.appels.map messageDe ++ attente.map Mouvement.message := by
    have happ := congrArg (List.map messageDe) h.appels
    rw [List.map_append, List.map_map, List.map_map] at happ
    exact happ
  rw [hmouv]
  refine ⟨hpre.trans (List.prefix_append _ _), fun hp hs => ?_⟩
  rw [(hall hs).1, h.attente_nil hp, List.map_nil, List.append_nil]

/-- **The messages executed are the moves**: over a faithful transport, in any order of steps,
those executed so far are the first of the moves; and all of them, in order, once nothing is in
flight. -/
theorem chaine_livre (hes : ∀ e ∈ es, e.Fidele) (h : (chaine mcu).run (chaine mcu).init es = some c) :
    c.arduino.journal <+: c.appli.mouvements.map Mouvement.message ∧
      (c.prise = [] → c.serie = [] → c.arduino.journal = c.appli.mouvements.map Mouvement.message) := by
  obtain ⟨attente, hal⟩ := aligne (fun e he => (hes e he).2) h
  exact hal.journal ⟨es, h⟩ (conserve (fun e he => (hes e he).1) h)

/-- Two moves and the stop, the second move still on the socket: the first is the one executed. -/
theorem chaine_livre_deux : ∃ c, (chaine .atmega328P).run (chaine .atmega328P).init
      [.appli .connecte, .appli (.bouge ⟨.seekDir, 5⟩), .appli (.bouge ⟨.seekVar, 60⟩), .recv (.deux 3 5),
        .arduino (.octet 51), .appli .touche, .arduino (.octet 53), .arduino (.octet 10)] = some c ∧
    c.prise = [2, 60, 83] ∧ c.arduino.journal <+: [messageDe (3, 5), messageDe (2, 60)] := by
  have hrun : (chaine .atmega328P).run (chaine .atmega328P).init
      [.appli .connecte, .appli (.bouge ⟨.seekDir, 5⟩), .appli (.bouge ⟨.seekVar, 60⟩), .recv (.deux 3 5),
        .arduino (.octet 51), .appli .touche, .arduino (.octet 53), .arduino (.octet 10)] = some _ := rfl
  refine ⟨_, hrun, by decide, (chaine_livre (fun e he => ?_) hrun).1⟩
  simp only [List.mem_cons, List.not_mem_nil, or_false] at he
  rcases he with rfl | rfl | rfl | rfl | rfl | rfl | rfl | rfl <;>
    simp [EvChaine.Fidele, EvChaine.SansPerte, EvChaine.Entier, Recv.octets]

/-! ## Progress -/

/-- Steps of the Arduino that read no byte are steps of the chain. -/
theorem run_arduino {fs : List Ev} (hfs : Silent fs) : ∀ {c : Chaine}, (machine mcu).run c.arduino fs = some m →
    (chaine mcu).run c (fs.map .arduino) = some { c with arduino := m } := by
  induction fs with
  | nil =>
    intro c h
    cases h
    rfl
  | cons e fs ih =>
    intro c h
    obtain ⟨m₁, h1, h2⟩ := Sys.run_cons_some.1 h
    have hstep : (chaine mcu).step c (.arduino e) = some { c with arduino := m₁ } := by
      cases e with
      | octet b => exact absurd List.mem_cons_self (hfs.not_octet (b := b))
      | stmt s =>
        change (c.arduino.step (.stmt s)).map _ = _
        rw [show c.arduino.step (.stmt s) = some m₁ from h1]
        rfl
      | tick s =>
        cases h1
        rfl
    have htail : Silent fs := by
      cases e with
      | octet b => exact absurd List.mem_cons_self (hfs.not_octet (b := b))
      | _ => exact hfs
    rw [List.map_cons]
    exact Sys.run_cons_some.2 ⟨_, hstep, ih htail h2⟩

/-- The Arduino can always finish its message. -/
theorem finit (mcu : Mcu) (s : Sensors) (c : Chaine) : ∃ (fs : List Ev) (c' : Chaine),
    (chaine mcu).run c (fs.map .arduino) = some c' ∧ c'.appli = c.appli ∧ c'.prise = c.prise ∧ c'.pont = c.pont ∧
      c'.serie = c.serie ∧ c'.arduino.reste = [] := by
  have hrun : (machine mcu).run c.arduino (List.replicate c.arduino.reste.length (.stmt s)) =
      some ⟨c.arduino.sketch.execAll s c.arduino.reste, [], c.arduino.journal⟩ := run_stmts s _ _ _
  exact ⟨_, _, run_arduino (octets_replicate_stmt _ s) hrun, rfl, rfl, rfl, rfl, rfl⟩

/-- **It can always empty the serial link**, by its own steps. -/
theorem vide_serie (mcu : Mcu) (s : Sensors) (l : List UInt8) : ∀ {c : Chaine}, c.serie = l →
    ∃ (fs : List Ev) (c' : Chaine), (chaine mcu).run c (fs.map .arduino) = some c' ∧ c'.appli = c.appli ∧
      c'.prise = c.prise ∧ c'.pont = c.pont ∧ c'.serie = [] ∧ c'.arduino.reste = [] := by
  induction l with
  | nil =>
    intro c hc
    obtain ⟨fs, c', h2, h3, h4, h5, h6, h7⟩ := finit mcu s c
    exact ⟨fs, c', h2, h3, h4, h5, h6.trans hc, h7⟩
  | cons b l ih =>
    intro c hc
    obtain ⟨fs, u, h2, h3, h4, h5, h6, h7⟩ := finit mcu s c
    have hstep : (chaine mcu).step u (.arduino (.octet b)) =
        some { u with arduino := u.arduino.octet b, serie := l } := by
      change (if u.serie.head? = some b then (u.arduino.step (.octet b)).map _ else none) = _
      rw [h6, hc, if_pos List.head?_cons]
      change Option.map _ (if u.arduino.reste = [] then some (u.arduino.octet b) else none) = _
      rw [if_pos h7]
      rfl
    obtain ⟨gs, c', g2, g3, g4, g5, g6, g7⟩ := ih (c := { u with arduino := u.arduino.octet b, serie := l }) rfl
    refine ⟨fs ++ .octet b :: gs, c', ?_, g3.trans h3, g4.trans h4, g5.trans h5, g6, g7⟩
    rw [List.map_append, List.map_cons]
    exact Sys.run_append_some.2 ⟨u, h2, Sys.run_cons_some.2 ⟨_, hstep, g2⟩⟩

/-- **The bridge can always receive what is on the socket.** -/
theorem vide_prise (mcu : Mcu) (attente : List Mouvement) : ∀ {c : Chaine}, Aligne c attente → ∃ fs c',
    (∀ e ∈ fs, e.Fidele) ∧ (chaine mcu).run c fs = some c' ∧ c'.appli = c.appli ∧ c'.prise = [] := by
  induction attente with
  | nil =>
    intro c h
    have hprise := h.prise
    rw [List.flatMap_nil, List.nil_append] at hprise
    unfold Chaine.fin at hprise
    split at hprise
    · rename_i hfin
      have hstep : (chaine mcu).step c (.recv (.un (car 'S'))) = some (c.recoit (.un (car 'S'))) := by
        refine if_pos ⟨hfin.2, by rw [hfin.1]; simp, ?_, fun hr => by cases hr⟩
        rw [hprise, onTouch_eq]
        exact List.prefix_rfl
      refine ⟨[.recv (.un (car 'S'))], _, fun e he => ?_, Sys.run_cons_some.2 ⟨_, hstep, rfl⟩, rfl, ?_⟩
      · rw [List.mem_singleton.1 he]
        exact ⟨trivial, .inr rfl⟩
      · change c.prise.drop 1 = []
        rw [hprise, onTouch_eq]
        rfl
    · exact ⟨[], c, by simp, rfl, rfl, hprise⟩
  | cons m l ih =>
    intro c h
    obtain ⟨a, ha⟩ : ∃ a : Int8, a.toUInt8 = UInt8.ofNat m.curseur.id.val := ⟨_, UInt8.toUInt8_toInt8 _⟩
    obtain ⟨b, hb⟩ : ∃ b : Int8, b.toUInt8 = UInt8.ofNat m.progress.val := ⟨_, UInt8.toUInt8_toInt8 _⟩
    have hstep : (chaine mcu).step c (.recv (.deux a b)) = some (c.recoit (.deux a b)) := by
      refine if_pos ⟨h.actif_cons, fun hn => absurd (h.vide hn) (List.cons_ne_nil _ _), ?_, fun hr => by cases hr⟩
      rw [h.prise, List.flatMap_cons, send_mouvement, List.append_assoc]
      change [a.toUInt8, b.toUInt8] <+: _
      rw [ha, hb]
      exact List.prefix_append _ _
    obtain ⟨fs, c', h1, h2, h3, h4⟩ := ih (h.deux ha hb)
    refine ⟨.recv (.deux a b) :: fs, c', fun e he => ?_, Sys.run_cons_some.2 ⟨_, hstep, h2⟩, h3, h4⟩
    rcases List.mem_cons.1 he with rfl | he
    · exact ⟨trivial, .inl rfl⟩
    · exact h1 e he

/-- **Every move can still be delivered**: from every state of a faithful transport, the bridge
and the Arduino can come to a state with nothing in flight, in which the messages executed are
the moves, one each, in order. -/
theorem chaine_aboutit (hes : ∀ e ∈ es, e.Fidele) (h : (chaine mcu).run (chaine mcu).init es = some c) :
    ∃ fs c', (∀ e ∈ fs, e.Fidele) ∧ (chaine mcu).run c fs = some c' ∧ c'.appli = c.appli ∧ c'.prise = [] ∧
      c'.serie = [] ∧ c'.arduino.reste = [] ∧ c'.arduino.journal = c.appli.mouvements.map Mouvement.message := by
  obtain ⟨attente, hal⟩ := aligne (fun e he => (hes e he).2) h
  obtain ⟨fs, u, h1, h2, h3, h4⟩ := vide_prise mcu attente hal
  obtain ⟨gs, c', g2, g3, g4, -, g6, g7⟩ := vide_serie mcu Sensors.zero u.serie (c := u) rfl
  have hfg : ∀ e ∈ fs ++ gs.map .arduino, e.Fidele := by
    intro e he
    rcases List.mem_append.1 he with he | he
    · exact h1 e he
    · obtain ⟨x, -, rfl⟩ := List.mem_map.1 he
      exact ⟨trivial, trivial⟩
  have hrun : (chaine mcu).run c (fs ++ gs.map .arduino) = some c' := Sys.run_append_some.2 ⟨u, h2, g2⟩
  -- the run up to here is again a faithful one
  have hall : (chaine mcu).run (chaine mcu).init (es ++ (fs ++ gs.map .arduino)) = some c' :=
    Sys.run_append_some.2 ⟨c, h, hrun⟩
  have hfall : ∀ e ∈ es ++ (fs ++ gs.map .arduino), e.Fidele := by
    intro e he
    rcases List.mem_append.1 he with he | he
    · exact hes e he
    · exact hfg e he
  obtain ⟨attente', hal'⟩ := aligne (fun e he => (hfall e he).2) hall
  have hj := (hal'.journal ⟨_, hall⟩ (conserve (fun e he => (hfall e he).1) hall)).2 (g4.trans h4) g6
  refine ⟨fs ++ gs.map .arduino, c', hfg, hrun, g3.trans h3, g4.trans h4, g6, g7, ?_⟩
  rw [hj, g3.trans h3]

/-- After a move and the stop, both on the socket. -/
theorem chaine_aboutit_stop : ∃ c fs c', (chaine .atmega328P).run c fs = some c' ∧
    c.prise = [1, 30, 83] ∧ c'.prise = [] ∧ c'.arduino.journal = [messageDe (1, 30)] := by
  have hrun : (chaine .atmega328P).run (chaine .atmega328P).init
      [.appli .connecte, .appli (.bouge ⟨.seekFrein, 30⟩), .appli .touche] = some _ := rfl
  obtain ⟨fs, c', -, h, -, hp, -, -, hj⟩ := chaine_aboutit (fun e he => by
    simp only [List.mem_cons, List.not_mem_nil, or_false] at he
    rcases he with rfl | rfl | rfl <;> exact ⟨trivial, trivial⟩) hrun
  exact ⟨_, fs, c', h, by decide, hp, hj⟩

end ICar
