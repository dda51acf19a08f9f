import Mathlib.Order.Bounds.Basic
import ICar.Spec.Pont

/-!
# Reading an answer of the Arduino

`arduino_print_return` never increments its index. Every byte is stored in the first place of
the array, and the test on `taille` fails only if `taille` is 0.

* `tours_eq`: the variables after any number of turns.
* `retourne_iff`: the function returns exactly when `taille` is 0 or a newline comes.
* `lit_message_iff`: it reads a message as its comments say exactly when `taille` is 0 or the
  first byte is a newline.
-/

namespace ICar

variable {taille : ℕ} {flux : ℕ → Int8} {msg : Vector Int8 1000}

/-! ## The loop -/

/-- The variables before the loop. -/
def Lecture.debut (msg : Vector Int8 1000) : Lecture := { arduinoMsg := msg }

/-- **The variables after some turns**: the last byte, in the first place of the array. -/
theorem tours_eq (flux : ℕ → Int8) (msg : Vector Int8 1000) (k : ℕ) : (Lecture.tour flux)^[k + 1] (.debut msg) =
    { octet := flux k, arduinoMsg := msg.setIfInBounds 0 (flux k), i := 0, lus := k + 1 } := by
  induction k with
  | zero => rfl
  | succ k ih =>
    rw [Function.iterate_succ_apply', ih]
    simp only [Lecture.tour, Vector.setIfInBounds_setIfInBounds]

/-- The loop is entered unless `taille` is 0. -/
theorem test_debut : Lecture.test taille (.debut msg) = true ↔ 0 < taille := by
  have ha : car 'a' ≠ car '\n' := by decide
  simp only [Lecture.test, Bool.and_eq_true, decide_eq_true_eq]
  exact and_iff_right ha

/-- After a turn the loop goes on until a newline. -/
theorem test_tours (h : 0 < taille) (k : ℕ) :
    Lecture.test taille ((Lecture.tour flux)^[k + 1] (.debut msg)) = true ↔ flux k ≠ car '\n' := by
  rw [tours_eq]
  simp [Lecture.test, h]

/-- **Where the function returns**: before the loop, or after the turn of the first newline. -/
theorem retour_iff {s : Lecture} : (∃ n, arduinoPrintReturn n taille flux msg = some s) ↔
    (taille = 0 ∧ s = .debut msg) ∨
      0 < taille ∧ ∃ k, flux k = car '\n' ∧ (∀ j < k, flux j ≠ car '\n') ∧
        s = { octet := flux k, arduinoMsg := msg.setIfInBounds 0 (flux k), i := 0, lus := k + 1 } := by
  refine While.ends_iff.trans ?_
  constructor
  · rintro ⟨k, hk, hend, rfl⟩
    rcases Nat.eq_zero_or_pos taille with h0 | hpos
    · cases k with
      | zero => exact .inl ⟨h0, rfl⟩
      | succ k => exact absurd (test_debut.1 (hk 0 (Nat.succ_pos k))) (by omega)
    · cases k with
      | zero => exact absurd (test_debut.2 hpos) (Bool.not_eq_true _ ▸ hend)
      | succ k =>
        have hnl : flux k = car '\n' := by
          by_contra hne
          exact absurd ((test_tours hpos k).2 hne) (Bool.not_eq_true _ ▸ hend)
        exact .inr ⟨hpos, k, hnl, fun j hj => (test_tours hpos j).1 (hk (j + 1) (by omega)), tours_eq flux msg k⟩
  · rintro (⟨rfl, rfl⟩ | ⟨hpos, k, hnl, hk, rfl⟩)
    · exact ⟨0, fun j hj => absurd hj (Nat.not_lt_zero j), rfl, rfl⟩
    · refine ⟨k + 1, fun j hj => ?_, ?_, (tours_eq flux msg k).symm⟩
      · cases j with
        | zero => exact test_debut.2 hpos
        | succ j => exact (test_tours hpos j).2 (hk j (by omega))
      · rw [← Bool.not_eq_true]
        exact fun ht => (test_tours hpos k).1 ht hnl

/-- **When the function returns**: exactly when `taille` is 0 or a newline comes. -/
theorem retourne_iff : (∃ n s, arduinoPrintReturn n taille flux msg = some s) ↔
    taille = 0 ∨ ∃ k, flux k = car '\n' := by
  rw [exists_comm]
  simp only [retour_iff]
  constructor
  · rintro ⟨s, ⟨h0, -⟩ | ⟨-, k, hnl, -⟩⟩
    · exact .inl h0
    · exact .inr ⟨k, hnl⟩
  · intro h
    rcases Nat.eq_zero_or_pos taille with h0 | hpos
    · exact ⟨_, .inl ⟨h0, rfl⟩⟩
    · have hnl := h.resolve_left hpos.ne'
      exact ⟨_, .inr ⟨hpos, Nat.find hnl, Nat.find_spec hnl, fun j hj => Nat.find_min hnl hj, rfl⟩⟩

/-! ## The message read -/

/-- The smaller of `taille` and the position, from 1 on, of the first newline. -/
def LongueurMessage (taille : ℕ) (flux : ℕ → Int8) (n : ℕ) : Prop :=
  IsLeast {n | n = taille ∨ ∃ j, n = j + 1 ∧ flux j = car '\n'} n

/-- **The function reads a message**: it returns after the bytes up to the first newline, or
`taille` of them, and the array begins with these bytes. -/
def LitMessage (taille : ℕ) (flux : ℕ → Int8) (msg : Vector Int8 1000) : Prop :=
  ∃ n fuel s, LongueurMessage taille flux n ∧ arduinoPrintReturn fuel taille flux msg = some s ∧
    s.lus = n ∧ ∀ j < n, s.arduinoMsg[j]? = some (flux j)

/-- The first place holds the last byte read, a newline. -/
theorem LitMessage.fin (h : LitMessage taille flux msg) : taille = 0 ∨ flux 0 = car '\n' := by
  obtain ⟨n, fuel, s, -, hs, rfl, hmsg⟩ := h
  rcases retour_iff.1 ⟨fuel, hs⟩ with ⟨h0, -⟩ | ⟨-, k, hnl, -, rfl⟩
  · exact .inl h0
  · have hfirst := hmsg 0 (Nat.succ_pos k)
    rw [Vector.getElem?_setIfInBounds_self_of_lt (by decide), hnl] at hfirst
    exact .inr (Option.some.inj hfirst).symm

/-- **When it reads a message**: exactly when `taille` is 0 or the first byte is a newline. -/
theorem lit_message_iff (taille : ℕ) (flux : ℕ → Int8) (msg : Vector Int8 1000) :
    LitMessage taille flux msg ↔ taille = 0 ∨ flux 0 = car '\n' := by
  constructor
  · exact LitMessage.fin
  · intro h
    rcases Nat.eq_zero_or_pos taille with rfl | hpos
    · obtain ⟨fuel, hs⟩ := retour_iff.2 (.inl ⟨rfl, rfl⟩ : 0 = 0 ∧ (Lecture.debut msg) = .debut msg ∨ _)
      exact ⟨0, fuel, _, ⟨.inl rfl, fun m _ => Nat.zero_le m⟩, hs, rfl, fun j hj => absurd hj (Nat.not_lt_zero j)⟩
    · have hnl := h.resolve_left hpos.ne'
      obtain ⟨fuel, hs⟩ : ∃ n, arduinoPrintReturn n taille flux msg = some _ :=
        retour_iff.2 (.inr ⟨hpos, 0, hnl, fun j hj => absurd hj (Nat.not_lt_zero j), rfl⟩)
      refine ⟨1, fuel, _, ⟨.inr ⟨0, rfl, hnl⟩, ?_⟩, hs, rfl, fun j hj => ?_⟩
      · rintro m (rfl | ⟨j, rfl, -⟩)
        · exact hpos
        · exact Nat.succ_pos j
      · obtain rfl : j = 0 := by omega
        exact Vector.getElem?_setIfInBounds_self_of_lt (by decide)

/-- Of `ab` and a newline the array only gets the newline, in the place of `a`; and without
newline the function never returns. -/
theorem not_lit_message_ab : ¬ LitMessage 10 (fun i => (['a', 'b', '\n'].map car).getD i 0) (.replicate 1000 0) ∧
    (∀ n, arduinoPrintReturn n 10 (fun _ => car 'a') (.replicate 1000 0) = none) ∧
    ¬ ∀ taille ≤ 1000, ∀ flux msg, LitMessage taille flux msg := by
  have hab : ¬ LitMessage 10 (fun i => (['a', 'b', '\n'].map car).getD i 0) (.replicate 1000 0) :=
    fun h => absurd h.fin (by decide)
  have ha : car 'a' ≠ car '\n' := by decide
  refine ⟨hab, While.not_ends_iff.2 fun k => ?_, fun h => hab (h 10 (by decide) _ _)⟩
  cases k with
  | zero => exact test_debut.2 (by decide)
  | succ k => exact (test_tours (by decide) k).2 ha

end ICar
