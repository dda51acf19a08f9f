import ICar.Proof.Journal
import ICar.Spec.Arrivees
import ICar.Spec.Messages
import ICar.Spec.Pont

/-!
# The serial link, end to end

Both formats end a message with a newline, and the Arduino cuts the line at newlines
(`Proof/Journal.lean`), so each law is decided by the bodies of the messages.

* `inverse_iff`: the bridge writes a header as a decimal number, so what it writes for a
  command begins with a digit or a sign, and is executed by the default branch
  (`ordre_messageDe`). The decoder undoes the encoder on the empty list only.
* `une_par_commande_iff`: the documented format, whose value is one character, is uniquely
  decodable exactly as long as no value is 10, the code of the newline.
-/

namespace ICar

open Framing

variable {mcu : Mcu}

/-! ## Reading a line -/

/-- `new` are the messages handed to `parseMessage` in a run that reads the bytes `xs`,
from a reachable state where the program is idle and its text empty. -/
def Lit (mcu : Mcu) (xs : List UInt8) (new : List (List Int8)) : Prop :=
  ∃ m m' es, (machine mcu).Reach m ∧ m.reste = [] ∧ m.sketch.inputString = [] ∧
    (machine mcu).run m es = some m' ∧ octets es = xs ∧ m'.journal = m.journal ++ new

theorem lit_eq {xs : List UInt8} {new : List (List Int8)} (h : Lit mcu xs new) :
    new = (scan (car '\n') ([], []) (xs.map UInt8.toInt8)).1 := by
  obtain ⟨m, m', es, hm, hr, h0, hrun, ho, hj⟩ := h
  have ht : m.tampon = [] := by unfold Machine.tampon; rw [if_pos hr, h0]
  have := journal_eq (reach_ok hm) ht hrun
  rw [hj, ho] at this
  have hs := scan_fst_append (d := car '\n') m.journal [] [] (xs.map UInt8.toInt8)
  rw [List.append_nil] at hs
  rw [hs] at this
  exact List.append_cancel_left this

/-- Every line can be read, from start-up on. -/
theorem lit_scan (mcu : Mcu) (xs : List UInt8) :
    Lit mcu xs (scan (car '\n') ([], []) (xs.map UInt8.toInt8)).1 := by
  obtain ⟨es, hes, ho⟩ := recus_run mcu (xs.map fun b => (b, (⟨0, 0⟩ : Sensors))) ⟨Sketch.setup mcu, []⟩
  have hox : octets es = xs := by rw [ho, List.map_map]; simp [Function.comp_def]
  have hj := journal_eq (ok_init : Ok (machine mcu).init) rfl hes
  refine ⟨_, _, es, Sys.Reach.init, rfl, rfl, hes, hox, ?_⟩
  rw [hox] at hj
  exact hj

/-! ## The text of a call -/

theorem toText_chars {n : ℤ} {c : Char} (h : c ∈ toText n) : c = '-' ∨ c.isDigit = true := by
  unfold toText at h
  split at h
  · rcases List.mem_cons.1 h with h | h
    · exact .inl h
    · exact .inr (Nat.isDigit_of_mem_toDigits (by decide) (by decide) h)
  · exact .inr (Nat.isDigit_of_mem_toDigits (by decide) (by decide) h)

theorem toText_ne_nil (n : ℤ) : toText n ≠ [] := by
  unfold toText
  split
  · exact List.cons_ne_nil _ _
  · exact Nat.toDigits_ne_nil

/-- A digit or a sign is neither the newline nor a header of the `switch`. -/
theorem car_of_digit {c : Char} (h : c = '-' ∨ c.isDigit = true) :
    car c ≠ car '\n' ∧ car c ≠ car 'D' ∧ car c ≠ car 'F' ∧ car c ≠ car 'V' ∧ car c ≠ car 'S' ∧
      car c ≠ car 'R' := by
  have hn : 45 ≤ c.toNat ∧ c.toNat ≤ 57 := by
    rcases h with rfl | h
    · decide
    · simp only [Char.isDigit, Bool.and_eq_true, decide_eq_true_eq] at h
      have h1 : (48 : UInt32).toNat ≤ c.val.toNat := UInt32.le_iff_toNat_le.1 h.1
      have h2 : c.val.toNat ≤ (57 : UInt32).toNat := UInt32.le_iff_toNat_le.1 h.2
      exact ⟨le_trans (by decide) h1, h2⟩
  obtain ⟨n, hc⟩ : ∃ n, c.toNat = n := ⟨_, rfl⟩
  unfold car
  rw [hc] at hn ⊢
  obtain ⟨h1, h2⟩ := hn
  interval_cases n <;> decide

/-- The body of what a call writes, as `char`s. -/
def corpsDe (c : ℤ × ℤ) : List Int8 := (toText c.1 ++ toText c.2).map car

theorem messageDe_eq (c : ℤ × ℤ) : messageDe c = corpsDe c ++ [car '\n'] := by
  unfold messageDe commandeActionneur corpsDe
  simp only [List.map_append, List.map_map]
  rfl

theorem corpsDe_ligne (c : ℤ × ℤ) : car '\n' ∉ corpsDe c := by
  unfold corpsDe
  intro h
  obtain ⟨x, hx, hxn⟩ := List.mem_map.1 h
  have hd : x = '-' ∨ x.isDigit = true := by
    rcases List.mem_append.1 hx with hx | hx <;> exact toText_chars hx
  exact (car_of_digit hd).1 hxn

/-- **Every message of the bridge falls into the default branch.** -/
theorem ordre_messageDe (c : ℤ × ℤ) : ordre (messageDe c) = .defaut := by
  obtain ⟨x, l, hx⟩ := List.exists_cons_of_ne_nil (toText_ne_nil c.1)
  have hd := car_of_digit (toText_chars (n := c.1) (c := x) (by rw [hx]; simp))
  have h0 : charAt (messageDe c) 0 = car x := by
    rw [messageDe_eq]; unfold corpsDe; rw [hx]; rfl
  rw [ordre_defaut_iff]
  unfold Connu
  rw [h0]
  obtain ⟨-, h1, h2, h3, h4, h5⟩ := hd
  simp [h1, h2, h3, h4, h5]

/-- The bytes that a list of calls writes. -/
def appelsEcrits (cs : List (ℤ × ℤ)) : List UInt8 := cs.flatMap fun c => commandeActionneur c.1 c.2

theorem appelsEcrits_eq (cs : List (ℤ × ℤ)) :
    (appelsEcrits cs).map UInt8.toInt8 = (cs.map corpsDe).flatMap (· ++ [car '\n']) := by
  unfold appelsEcrits
  rw [List.map_flatMap, List.flatMap_map]
  exact List.flatMap_congr fun c _ => messageDe_eq c

/-- **The calls are read one message each**, in order. -/
theorem lit_appels {cs : List (ℤ × ℤ)} {new : List (List Int8)} (h : Lit mcu (appelsEcrits cs) new) :
    new = cs.map messageDe := by
  have hl : ∀ c ∈ cs.map corpsDe, car '\n' ∉ c := by
    intro c hc
    obtain ⟨x, -, rfl⟩ := List.mem_map.1 hc
    exact corpsDe_ligne x
  rw [lit_eq h, appelsEcrits_eq, scan_frames hl, List.nil_append, List.map_map]
  exact List.map_congr_left fun c _ => (messageDe_eq c).symm

/-! ## The decoder against the encoder -/

/-- What the encoder's command should make the decoder do. -/
def Entete.ordre (h : Entete) (v : Int8) : Ordre :=
  match h with
  | FREIN => .frein v
  | DIRECTION => .direction v
  | VARIATEUR => .variateur v

/-- The bytes written for a list of commands. -/
def ecrit (cmds : List (Entete × Fin 101)) : List UInt8 :=
  cmds.flatMap fun c => commandeActionneur c.1.code c.2.val

/-- The decoder executes exactly the commands written. -/
def Inverse (mcu : Mcu) (cmds : List (Entete × Fin 101)) : Prop :=
  ∀ new, Lit mcu (ecrit cmds) new → new.map ordre = cmds.map fun c => c.1.ordre (Int8.ofNat c.2.val)

/-- The messages read are those written, one for one. -/
theorem lit_ecrit {cmds : List (Entete × Fin 101)} {new : List (List Int8)} (h : Lit mcu (ecrit cmds) new) :
    new = cmds.map fun c => messageDe (c.1.code, c.2.val) := by
  have he : ecrit cmds = appelsEcrits (cmds.map fun c => (c.1.code, (c.2.val : ℤ))) := by
    unfold ecrit appelsEcrits
    rw [List.flatMap_map]
  rw [he] at h
  rw [lit_appels h, List.map_map]
  rfl

/-- **When the decoder undoes the encoder.** On the empty list of commands only. -/
theorem inverse_iff (mcu : Mcu) (cmds : List (Entete × Fin 101)) : Inverse mcu cmds ↔ cmds = [] := by
  constructor
  · intro h
    cases cmds with
    | nil => rfl
    | cons c cmds =>
      -- the first message is executed by the default branch
      have hlit := lit_scan mcu (ecrit (c :: cmds))
      have hnew := h _ hlit
      rw [lit_ecrit hlit, List.map_cons, List.map_cons, List.map_cons, List.cons.injEq, ordre_messageDe] at hnew
      obtain ⟨hd, v⟩ := c
      cases hd <;> cases hnew.1
  · rintro rfl new hnew
    rw [lit_ecrit hnew]
    rfl

/-- A brake order of 50 is received as the message `7050`, and stops the car. -/
theorem not_inverse_frein : ¬ Inverse .atmega328P [(.FREIN, 50)] := by
  intro h
  have hlit := lit_scan .atmega328P (ecrit [(.FREIN, 50)])
  have := h _ hlit
  rw [lit_ecrit hlit] at this
  revert this
  decide

/-! ## The documented format -/

/-- The header character. -/
def Entete.car : Entete → Int8
  | FREIN => ICar.car 'F'
  | DIRECTION => ICar.car 'D'
  | VARIATEUR => ICar.car 'V'

/-- A command in the documented format: header, value as one character, newline. -/
def documente (cmds : List (Entete × Fin 101)) : List UInt8 :=
  cmds.flatMap fun c => [c.1.car.toUInt8, UInt8.ofNat c.2.val, 10]

/-- `parseMessage` is called once per command, on its header and value, and never else. -/
def UneParCommande (mcu : Mcu) (cmds : List (Entete × Fin 101)) : Prop :=
  ∀ new, Lit mcu (documente cmds) new →
    new.map (fun t => (charAt t 0, charAt t 1)) = cmds.map fun c => (c.1.car, Int8.ofNat c.2.val)

def corpsDocumente (c : Entete × Fin 101) : List Int8 := [c.1.car, Int8.ofNat c.2.val]

theorem documente_eq (cmds : List (Entete × Fin 101)) :
    (documente cmds).map UInt8.toInt8 = (cmds.map corpsDocumente).flatMap (· ++ [car '\n']) := by
  unfold documente
  rw [List.map_flatMap, List.flatMap_map]
  refine List.flatMap_congr fun c _ => ?_
  have hh : c.1.car.toUInt8.toInt8 = c.1.car := by cases c.1 <;> decide
  simp only [List.map_cons, List.map_nil, hh]
  rfl

theorem ofNat_eq_newline : ∀ v : Fin 101, Int8.ofNat v.val = car '\n' ↔ v.val = 10 := by decide +kernel

/-- A body has the newline in it exactly when its value is 10. -/
theorem newline_mem_corps (c : Entete × Fin 101) : car '\n' ∈ corpsDocumente c ↔ c.2.val = 10 := by
  have hh : car '\n' ≠ c.1.car := by cases c.1 <;> decide
  simp only [corpsDocumente, List.mem_cons, List.not_mem_nil, or_false, hh, false_or]
  rw [eq_comm, ofNat_eq_newline]

/-- **When the documented format is uniquely decodable.** Exactly when no value is 10. -/
theorem une_par_commande_iff (mcu : Mcu) (cmds : List (Entete × Fin 101)) :
    UneParCommande mcu cmds ↔ ∀ c ∈ cmds, c.2.val ≠ 10 := by
  have hcorps : (∀ c ∈ cmds.map corpsDocumente, car '\n' ∉ c) ↔ ∀ c ∈ cmds, c.2.val ≠ 10 := by
    simp only [List.forall_mem_map, newline_mem_corps, ne_eq]
  constructor
  · intro h
    -- one message per command leaves no room for a message more
    have hlen := congrArg List.length (h _ (lit_scan mcu (documente cmds)))
    rw [documente_eq] at hlen
    simp only [List.length_map] at hlen
    rw [← hcorps, ← frames_iff (cmds.map corpsDocumente) []]
    simpa using hlen
  · intro h new hnew
    rw [lit_eq hnew, documente_eq, scan_frames (hcorps.2 h), List.nil_append, List.map_map, List.map_map]
    rfl

/-- A steering order of 10: its value ends the message, and the newline after it is read as
a second, empty one, which stops the car. -/
theorem not_une_par_commande_dix : ¬ UneParCommande .atmega328P [(.DIRECTION, 10)] := by
  intro h
  have := h _ (lit_scan .atmega328P (documente [(.DIRECTION, 10)]))
  revert this
  decide

end ICar
