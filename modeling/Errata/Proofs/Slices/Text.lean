import Errata.Proofs.Except
import Errata.Proofs.Text.Placement

/-!
# Slices that may fail

A reader that keeps positions cuts its text at them again and again, and a cut fails inside a character and
past the end. A computation that cuts and looks up has no result if it fails, and this is not the same as an
error that it ends with.

Loops are written with `partial_fixpoint`, so a loop that does not end has no result either. They call
themselves under another name, which `apply` gives them: a call by the name of the loop would leave the place
of the call in the file inside the definition.
-/

namespace Errata

/-! ## 1. Computations that may have no result -/

/-- A computation that ends with an error or with a value, or has no result. -/
abbrev Faulting (ε : Type) := ExceptT ε Option

variable {ε α β γ δ : Type}

/-- The computation has a result, namely the given one. -/
def Returns (x : Faulting ε α) (r : Except ε α) : Prop := x.run = some r

theorem returns_pure (a : α) : Returns (pure a : Faulting ε α) (.ok a) := rfl

theorem returns_throw (e : ε) : Returns (throw e : Faulting ε α) (.error e) := rfl

theorem Returns.bind {x : Faulting ε α} {r : Except ε α} {f : α → Faulting ε β} {g : α → Except ε β}
    (hx : Returns x r) (hf : ∀ a, r = .ok a → Returns (f a) (g a)) : Returns (x >>= f) (r >>= g) := by
  have hx : x = ExceptT.mk (some r) := hx
  rw [hx]
  cases r with
  | error e => rfl
  | ok a => exact hf a rfl

/-- The same where the first result is shown by positions. -/
theorem Returns.bind_of_map {x : Faulting ε α} {r : Except ε γ} {f : α → Faulting ε β} {g : γ → Except ε β}
    {k : γ → α} (hx : Returns x (r.map k)) (hf : ∀ c, r = .ok c → Returns (f (k c)) (g c)) :
    Returns (x >>= f) (r >>= g) := by
  have hx : x = ExceptT.mk (some (r.map k)) := hx
  rw [hx]
  cases r with
  | error e => rfl
  | ok c => exact hf c rfl

theorem map_bind (r : Except ε α) (g : α → Except ε β) (h : β → γ) :
    (r >>= g).map h = r >>= fun a => (g a).map h := by
  cases r <;> rfl

/-- The same where both results are shown by positions. -/
theorem Returns.bind_map {x : Faulting ε α} {r : Except ε γ} {f : α → Faulting ε β} {g : γ → Except ε δ}
    {k : γ → α} {h : δ → β} (hx : Returns x (r.map k))
    (hf : ∀ c, r = .ok c → Returns (f (k c)) ((g c).map h)) : Returns (x >>= f) ((r >>= g).map h) := by
  rw [map_bind]
  exact hx.bind_of_map hf

theorem lift_bind (a : α) (f : α → Faulting ε β) : ((some a : Option α) : Faulting ε α) >>= f = f a := rfl

/-- What a cut or a look-up finds is there for the rest. -/
theorem returns_lift {o : Option α} {a : α} {f : α → Faulting ε β} {r : Except ε β} (ho : o = some a)
    (hf : Returns (f a) r) : Returns ((o : Faulting ε α) >>= f) r := by
  rw [ho]
  exact hf

theorem returns_mapM {f : α → Faulting ε β} {g : α → Except ε β} {l : List α} (h : ∀ a ∈ l, Returns (f a) (g a)) :
    Returns (l.mapM f) (l.mapM g) := by
  induction l with
  | nil => exact returns_pure _
  | cons a l ih =>
    obtain ⟨ha, hl⟩ := List.forall_mem_cons.mp h
    rw [List.mapM_cons, List.mapM_cons]
    exact ha.bind fun b _ => (ih hl).bind fun bs _ => returns_pure _

theorem mapM_eq_some {f : α → Option β} {g : α → β} {l : List α} (h : ∀ a ∈ l, f a = some (g a)) :
    l.mapM f = some (l.map g) := by
  induction l with
  | nil => rfl
  | cons a l ih =>
    obtain ⟨ha, hl⟩ := List.forall_mem_cons.mp h
    rw [List.mapM_cons, ha, ih hl]
    rfl

/-! ## 2. Cuts -/

namespace Text

/-- What stands from a position on. -/
def from? (t : Text) (i : Nat) : Option Text := t.slice? i t.size

/-- What stands before a position. -/
def upTo? (t : Text) (i : Nat) : Option Text := t.slice? 0 i

theorem from?_append (before after : Text) : Text.from? (before ++ after) before.size = some after := by
  have h : Text.Holds (before ++ after) before.size after := ⟨before, [], by simp, rfl⟩
  rw [from?, size_append]
  exact slice?_of_holds h

theorem upTo?_append (before after : Text) : Text.upTo? (before ++ after) before.size = some before := by
  have h : Text.Holds (before ++ after) 0 before := ⟨[], after, rfl, rfl⟩
  rw [upTo?, ← Nat.zero_add before.size]
  exact slice?_of_holds h

theorem from?_size_take (t : Text) (n : Nat) : t.from? (size (t.take n)) = some (t.drop n) := by
  have h := from?_append (t.take n) (t.drop n)
  rwa [List.take_append_drop] at h

theorem upTo?_size_take (t : Text) (n : Nat) : t.upTo? (size (t.take n)) = some (t.take n) := by
  have h := upTo?_append (t.take n) (t.drop n)
  rwa [List.take_append_drop] at h

end Text

/-! ## 3. Cursors -/

namespace Cursor

open Text

variable {c d e : Cursor} {i j : Nat}

/-- The cursor so many bytes further on, with what stands before and after it cut there. -/
def move? (c : Cursor) (i : Nat) : Option Cursor := do
  let passed ← c.rest.upTo? i
  let rest ← c.rest.from? i
  return { previous := passed.getLast?.or c.previous, offset := c.offset + i, rest }

/-- A cursor that is reached by passing some text. -/
structure Passing (c : Cursor) (passed : Text) (d : Cursor) : Prop where
  passes : c.Passes passed d
  previous : d.previous = passed.getLast?.or c.previous

theorem Passing.move? {passed : Text} (h : c.Passing passed d) : c.move? passed.size = some d := by
  obtain ⟨⟨hrest, hoffset⟩, hprevious⟩ := h
  rw [Cursor.move?, hrest, upTo?_append, from?_append]
  obtain ⟨previous, offset, rest⟩ := d
  cases hprevious
  cases hoffset
  rfl

theorem passing_advance (c : Cursor) (n : Nat) : c.Passing (c.rest.take n) (c.advance n) :=
  ⟨c.passes_advance n, rfl⟩

theorem Passing.trans {first second : Text} (h : c.Passing first d) (h' : d.Passing second e) :
    c.Passing (first ++ second) e := by
  refine ⟨h.passes.trans h'.passes, ?_⟩
  rw [h'.previous, h.previous, List.getLast?_append, Option.or_assoc]

/-- One cursor is reached from the other by moving on. -/
def Reaches (c d : Cursor) : Prop := ∃ passed, c.Passing passed d

theorem Reaches.refl (c : Cursor) : c.Reaches c := ⟨[], ⟨rfl, rfl⟩, rfl⟩

theorem Reaches.trans (h : c.Reaches d) (h' : d.Reaches e) : c.Reaches e := by
  obtain ⟨first, hfirst⟩ := h
  obtain ⟨second, hsecond⟩ := h'
  exact ⟨first ++ second, hfirst.trans hsecond⟩

theorem reaches_advance (c : Cursor) (n : Nat) : c.Reaches (c.advance n) := ⟨_, c.passing_advance n⟩

theorem reaches_skipBlanks (c : Cursor) : c.Reaches c.skipBlanks := c.reaches_advance _

theorem reaches_scan? {s : Scan} {f : Fragment} (h : c.scan? s = some (f, d)) : c.Reaches d := by
  obtain ⟨n, -, hn⟩ := Option.map_eq_some_iff.mp h
  cases hn
  exact c.reaches_advance n

/-- The bytes from one cursor to another. -/
def upTo (c d : Cursor) : Nat := d.offset - c.offset

theorem Reaches.offset_eq (h : c.Reaches d) : d.offset = c.offset + c.upTo d := by
  obtain ⟨passed, ⟨-, hoffset⟩, -⟩ := h
  rw [upTo]
  omega

theorem Reaches.move? (h : c.Reaches d) : c.move? (c.upTo d) = some d := by
  obtain ⟨passed, h⟩ := h
  have hsize : c.upTo d = passed.size := by
    rw [upTo, h.passes.2, Nat.add_sub_cancel_left]
  rw [hsize]
  exact h.move?

@[simp] theorem upTo_self (c : Cursor) : c.upTo c = 0 := Nat.sub_self c.offset

theorem upTo_advance (c : Cursor) (n : Nat) : c.upTo (c.advance n) = size (c.rest.take n) := by
  rw [upTo, (c.passes_advance n).2, Nat.add_sub_cancel_left]

theorem move?_size_take (c : Cursor) (n : Nat) : c.move? (size (c.rest.take n)) = some (c.advance n) := by
  rw [← c.upTo_advance n]
  exact (c.reaches_advance n).move?

theorem advance_add (c : Cursor) (n m : Nat) : c.advance (n + m) = (c.advance n).advance m := by
  unfold advance
  simp only [List.take_add, size_append, List.getLast?_append, Option.or_assoc, Nat.add_assoc, List.drop_drop]

theorem advance_of_length_le (c : Cursor) {n : Nat} (h : c.rest.length ≤ n) :
    c.advance n = c.advance c.rest.length := by
  unfold advance
  rw [List.take_of_length_le h, List.take_length, List.drop_of_length_le h, List.drop_length]

theorem upTo_add (h : c.Reaches d) (h' : d.Reaches e) : c.upTo d + d.upTo e = c.upTo e := by
  have hd := h.offset_eq
  have he := h'.offset_eq
  have hc := (h.trans h').offset_eq
  omega

theorem upTo_add_size (h : c.Reaches d) (n : Nat) :
    c.upTo d + size (d.rest.take n) = c.upTo (d.advance n) := by
  rw [← d.upTo_advance n]
  exact upTo_add h (d.reaches_advance n)

theorem upTo_advance_one {first : Char} {rest : Text} (h : c.rest = first :: rest) :
    c.upTo (c.advance 1) = first.utf8Size := by
  rw [c.upTo_advance, h]
  rfl

end Cursor

/-! ## 4. Readers -/

/-- Reading by positions gives what reading by cursors gives, with the position of the cursor for the cursor. -/
structure ReadsAs (start : Cursor) (x : Faulting ε (α × Nat)) (r : Except ε (α × Cursor)) : Prop where
  returns : Returns x (r.map fun found => (found.1, start.upTo found.2))
  reaches : ∀ found, r = .ok found → start.Reaches found.2

section

variable {start d : Cursor} {x : Faulting ε (α × Nat)} {f : α × Nat → Faulting ε (β × Nat)}

theorem readsAs_pure (a : α) (h : start.Reaches d) :
    ReadsAs start (pure (a, start.upTo d) : Faulting ε (α × Nat)) (.ok (a, d)) := by
  refine ⟨returns_pure _, fun found hfound => ?_⟩
  cases hfound
  exact h

theorem readsAs_throw (start : Cursor) (e : ε) :
    ReadsAs start (throw e : Faulting ε (α × Nat)) (.error e) := by
  refine ⟨returns_throw e, fun found hfound => ?_⟩
  cases hfound

theorem readsAs_lift {o : Option γ} {b : γ} {f : γ → Faulting ε (α × Nat)} {r : Except ε (α × Cursor)}
    (ho : o = some b) (hf : ReadsAs start (f b) r) : ReadsAs start ((o : Faulting ε γ) >>= f) r := by
  rw [ho]
  exact hf

theorem ReadsAs.bind {r : Except ε (α × Cursor)} {g : α × Cursor → Except ε (β × Cursor)} (hx : ReadsAs start x r)
    (hf : ∀ a d, r = .ok (a, d) → start.Reaches d → ReadsAs start (f (a, start.upTo d)) (g (a, d))) :
    ReadsAs start (x >>= f) (r >>= g) := by
  refine ⟨hx.returns.bind_map fun found hfound => ?_, fun found hfound => ?_⟩
  · exact (hf found.1 found.2 hfound (hx.reaches found hfound)).returns
  · obtain ⟨before, hbefore, hfound⟩ := bind_eq_ok_iff.mp hfound
    exact (hf before.1 before.2 hbefore (hx.reaches before hbefore)).reaches found hfound

/-- The same where what follows ends the reading. -/
theorem ReadsAs.bind_returns {r : Except ε (α × Cursor)} {k : α × Nat → Faulting ε β} {g : α × Cursor → Except ε β}
    (hx : ReadsAs start x r)
    (hf : ∀ a d, r = .ok (a, d) → start.Reaches d → Returns (k (a, start.upTo d)) (g (a, d))) :
    Returns (x >>= k) (r >>= g) :=
  hx.returns.bind_of_map fun found hfound => hf found.1 found.2 hfound (hx.reaches found hfound)

end

end Errata
