/-!
# Computations that may fail
-/

namespace Errata

variable {ε α β : Type} {E : ε → Prop}

theorem bind_eq_ok_iff {x : Except ε α} {f : α → Except ε β} {b : β} :
    x >>= f = .ok b ↔ ∃ a, x = .ok a ∧ f a = .ok b := by
  cases x with
  | error e => simp [bind, Except.bind]
  | ok a => simp [bind, Except.bind]

/-- The computation ends with an error that has one property or with a result that has another. -/
def Ends (E : ε → Prop) (P : α → Prop) : Except ε α → Prop
  | .error e => E e
  | .ok a => P a

namespace Ends

theorem imp {E' : ε → Prop} {P Q : α → Prop} {x : Except ε α} (hx : Ends E P x)
    (herror : ∀ e, E e → E' e) (hok : ∀ a, P a → Q a) : Ends E' Q x := by
  cases x with
  | error e => exact herror e hx
  | ok a => exact hok a hx

theorem and {P Q : α → Prop} {x : Except ε α} (hx : Ends E P x) (h : ∀ a, x = .ok a → Q a) :
    Ends E (fun a => P a ∧ Q a) x := by
  cases x with
  | error e => exact hx
  | ok a => exact ⟨hx, h a rfl⟩

theorem of_ok {P : α → Prop} {x : Except ε α} {a : α} (h : Ends E P x) (hx : x = .ok a) : P a := by
  rwa [hx] at h

theorem of_error {P : α → Prop} {x : Except ε α} {e : ε} (h : Ends E P x) (hx : x = .error e) : E e := by
  rwa [hx] at h

theorem bind {P : α → Prop} {Q : β → Prop} {x : Except ε α} {f : α → Except ε β} (hx : Ends E P x)
    (hf : ∀ a, P a → Ends E Q (f a)) : Ends E Q (x >>= f) := by
  cases x with
  | error e => exact hx
  | ok a => exact hf a hx

theorem map {P : α → Prop} {Q : β → Prop} {x : Except ε α} {f : α → β} (hx : Ends E P x)
    (hf : ∀ a, P a → Q (f a)) : Ends E Q (x.map f) := by
  cases x with
  | error e => exact hx
  | ok a => exact hf a hx

theorem mapM {P : β → Prop} {f : α → Except ε β} {l : List α} (h : ∀ a ∈ l, Ends E P (f a)) :
    Ends E (fun bs => ∀ b ∈ bs, P b) (l.mapM f) := by
  induction l with
  | nil => exact List.forall_mem_nil _
  | cons a l ih =>
    rw [List.mapM_cons]
    refine (h a List.mem_cons_self).bind fun b hb => ?_
    refine (ih fun a' ha' => h a' (List.mem_cons_of_mem a ha')).bind fun bs hbs => ?_
    rintro b' hb'
    rcases List.mem_cons.mp hb' with rfl | hb'
    · exact hb
    · exact hbs b' hb'

end Ends

theorem exists_of_mapM_eq_ok {f : α → Except ε β} {l : List α} {bs : List β} (h : l.mapM f = .ok bs) :
    ∀ b ∈ bs, ∃ a ∈ l, f a = .ok b := by
  have hends : Ends (fun _ => True) (fun bs => ∀ b ∈ bs, ∃ a ∈ l, f a = .ok b) (l.mapM f) := by
    refine Ends.mapM fun a ha => ?_
    cases hfa : f a with
    | error e => exact trivial
    | ok b => exact ⟨a, ha, hfa⟩
  exact hends.of_ok h

/-- The error that a computation ends with. -/
def error? : Except ε α → Option ε
  | .error e => some e
  | .ok _ => none

theorem eq_error_of_error? {x : Except ε α} {e : ε} (h : error? x = some e) : x = .error e := by
  cases x with
  | error e' => rw [Option.some.inj h]
  | ok a => cases h

/-- The computation does not fail, and its result has a property. -/
def Yields (P : α → Prop) (x : Except ε α) : Prop := Ends (fun _ => False) P x

theorem Yields.eq_ok {P : α → Prop} {x : Except ε α} (h : Yields P x) : ∃ a, x = .ok a ∧ P a := by
  cases x with
  | error e => exact h.elim
  | ok a => exact ⟨a, rfl, h⟩

end Errata
