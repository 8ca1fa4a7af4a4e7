import Mathlib.Data.List.Basic

/-!
# Unambiguous encodings

An encoding of values as lists is unambiguous if a value can be told from the front of any list
that begins with its encoding. Values of one length are, if their encodings differ, and so are
values behind one another and values behind their number. No decoder is needed, so there is no
bound on what a decoder would accept.
-/

set_option autoImplicit false

namespace Phoenixcoin.Lib

variable {α β γ : Type} {write : α → List γ} {P : α → Prop}

/-- The encodings of the values in `P` can be told apart at the front of longer lists. -/
def Unambiguous (write : α → List γ) (P : α → Prop) : Prop :=
  ∀ x y r s, P x → P y → write x ++ r = write y ++ s → x = y ∧ r = s

namespace Unambiguous

/-- Encodings of one length. -/
theorem of_length (n : ℕ) (hlength : ∀ x, (write x).length = n)
    (hinj : ∀ x y, P x → P y → write x = write y → x = y) : Unambiguous write P := by
  intro x y r s hx hy heq
  obtain ⟨hwrite, hrest⟩ := List.append_inj heq (by rw [hlength, hlength])
  exact ⟨hinj x y hx hy hwrite, hrest⟩

/-- One value after another. -/
theorem append {g : β → List γ} {Q : β → Prop} (h : Unambiguous write P) (hg : Unambiguous g Q) :
    Unambiguous (fun p : α × β => write p.1 ++ g p.2) fun p => P p.1 ∧ Q p.2 := by
  rintro ⟨x, z⟩ ⟨y, w⟩ r s ⟨hx, hz⟩ ⟨hy, hw⟩ heq
  simp only [List.append_assoc] at heq
  obtain ⟨hfirst, hrest⟩ := h x y _ _ hx hy heq
  obtain ⟨hsecond, hend⟩ := hg z w r s hz hw hrest
  exact ⟨by rw [hfirst, hsecond], hend⟩

/-- Values that stand for others, such as the fields of a record for the record. -/
theorem comap {e : β → α} (h : Unambiguous write P) (he : Function.Injective e) :
    Unambiguous (fun y => write (e y)) fun y => P (e y) := by
  intro x y r s hx hy heq
  obtain ⟨hsame, hrest⟩ := h _ _ r s hx hy heq
  exact ⟨he hsame, hrest⟩

/-- As many values of one kind. -/
theorem flatten (h : Unambiguous write P) {xs ys : List α} {r s : List γ}
    (hlength : xs.length = ys.length) (hxs : ∀ x ∈ xs, P x) (hys : ∀ y ∈ ys, P y)
    (heq : (xs.map write).flatten ++ r = (ys.map write).flatten ++ s) : xs = ys ∧ r = s := by
  induction xs generalizing ys with
  | nil =>
    obtain rfl := List.length_eq_zero_iff.mp hlength.symm
    exact ⟨rfl, heq⟩
  | cons x xs ih =>
    match ys, hlength with
    | y :: ys, hlength =>
      simp only [List.map_cons, List.flatten_cons, List.append_assoc] at heq
      obtain ⟨hfirst, hrest⟩ :=
        h x y _ _ (hxs x List.mem_cons_self) (hys y List.mem_cons_self) heq
      obtain ⟨hothers, hend⟩ := ih (Nat.succ.inj hlength)
        (fun z hz => hxs z (List.mem_cons_of_mem _ hz))
        (fun z hz => hys z (List.mem_cons_of_mem _ hz)) hrest
      exact ⟨by rw [hfirst, hothers], hend⟩

variable {count : ℕ → List γ} {C : ℕ → Prop}

/-- Values behind their number. -/
theorem counted (hcount : Unambiguous count C) (h : Unambiguous write P) :
    Unambiguous (fun xs : List α => count xs.length ++ (xs.map write).flatten)
      fun xs => C xs.length ∧ ∀ x ∈ xs, P x := by
  rintro xs ys r s ⟨hCx, hxs⟩ ⟨hCy, hys⟩ heq
  simp only [List.append_assoc] at heq
  obtain ⟨hlength, hrest⟩ := hcount _ _ _ _ hCx hCy heq
  exact h.flatten hlength hxs hys hrest

/-- Letters behind their number. -/
theorem countedLetters (hcount : Unambiguous count C) :
    Unambiguous (fun bs : List γ => count bs.length ++ bs) fun bs => C bs.length := by
  intro bs cs r s hb hc heq
  simp only [List.append_assoc] at heq
  obtain ⟨hlength, hrest⟩ := hcount _ _ _ _ hb hc heq
  exact List.append_inj hrest hlength

end Unambiguous

end Phoenixcoin.Lib
