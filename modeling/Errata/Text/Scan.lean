import Errata.Text.Blank
import Errata.Text.Word

/-!
A scan looks at the start of a text and tells how many characters match there, if it matches at all. A
match is as long as possible and is never taken back.
-/

namespace Errata

abbrev Scan := Text → Option Nat

namespace Scan

/-- One character of a class. -/
def one (p : Char → Bool) : Scan
  | [] => none
  | c :: _ => if p c then some 1 else none

def char (c : Char) : Scan := one (· == c)

/-- A fixed piece of text. -/
def literal (s : String) : Scan := fun t =>
  if s.toList.isPrefixOf t then some s.toList.length else none

/-- All characters of a class at the start, maybe none. -/
def many (p : Char → Bool) : Scan := fun t => some (t.takeWhile p).length

/-- All characters of a class at the start, at least one. -/
def some1 (p : Char → Bool) : Scan := fun t =>
  let n := (t.takeWhile p).length
  if n = 0 then none else some n

/-- The end of the text. -/
def done : Scan := fun t => if t.isEmpty then some 0 else none

/-- A place where no character of the class follows. -/
def notBefore (p : Char → Bool) : Scan := fun t => if t.head?.any p then none else some 0

/-- One scan after another. -/
def seq : List Scan → Scan
  | [], _ => some 0
  | s :: rest, t => (s t).bind fun n => (seq rest (t.drop n)).map (n + ·)

theorem seq_cons_eq_some_iff {s : Scan} {rest : List Scan} {t : Text} {n : Nat} :
    seq (s :: rest) t = some n ↔
      ∃ a b, s t = some a ∧ seq rest (t.drop a) = some b ∧ a + b = n := by
  simp [seq, Option.bind_eq_some_iff]

theorem char_eq_some_iff {c : Char} {t : Text} {n : Nat} :
    char c t = some n ↔ t.head? = some c ∧ n = 1 := by
  cases t with
  | nil => simp [char, one]
  | cons d t =>
    by_cases h : d = c
    · simp [char, one, h, eq_comm]
    · simp [char, one, h]

theorem seq_char_pos {c : Char} {rest : List Scan} {t : Text} {n : Nat}
    (h : seq (char c :: rest) t = some n) : 0 < n := by
  obtain ⟨a, b, ha, _, hsum⟩ := seq_cons_eq_some_iff.mp h
  have := (char_eq_some_iff.mp ha).2
  omega

theorem one_pos {p : Char → Bool} {t : Text} {n : Nat} (h : one p t = some n) : 0 < n := by
  cases t with
  | nil => simp [one] at h
  | cons c t =>
    simp only [one] at h
    split at h
    · simp only [Option.some.injEq] at h
      omega
    · simp at h

theorem length_pos_of_one {p : Char → Bool} {t : Text} {n : Nat} (h : one p t = some n) :
    0 < t.length := by
  cases t with
  | nil => simp [one] at h
  | cons c t => simp

theorem length_pos_of_seq_char {c : Char} {rest : List Scan} {t : Text} {n : Nat}
    (h : seq (char c :: rest) t = some n) : 0 < t.length := by
  obtain ⟨a, b, ha, _, _⟩ := seq_cons_eq_some_iff.mp h
  exact length_pos_of_one ha

theorem literal_eq_some_iff {s : String} {t : Text} {n : Nat} :
    literal s t = some n ↔ s.toList <+: t ∧ n = s.toList.length := by
  unfold literal
  by_cases h : s.toList <+: t
  · rw [if_pos (List.isPrefixOf_iff_prefix.mpr h)]
    simp [h, eq_comm]
  · rw [if_neg (fun hp => h (List.isPrefixOf_iff_prefix.mp hp))]
    simp [h]

/-- The first scan that matches. -/
def first : List Scan → Scan
  | [], _ => none
  | s :: rest, t => (s t).or (first rest t)

def optional (s : Scan) : Scan := fun t => some ((s t).getD 0)

/-- A scan as often as it matches with at least one character. -/
def repeated (s : Scan) (t : Text) : Option Nat :=
  match s t with
  | none => some 0
  | some n =>
    if n = 0 ∨ t.length < n then some 0
    else (repeated s (t.drop n)).map (n + ·)
termination_by t.length
decreasing_by simp only [List.length_drop]; omega

def blanks : Scan := many Text.isBlank

def blanks1 : Scan := some1 Text.isBlank

/-- A letter of ASCII and then characters of a class. -/
def word (p : Char → Bool) : Scan := seq [one Text.isAsciiLetter, many p]

/-- Whether the scan matches somewhere at the start. -/
def startsIn (s : Scan) (t : Text) : Bool := (s t).isSome

/-- Whether the scan matches the whole text. -/
def coversAll (s : Scan) (t : Text) : Bool := (seq [s, done] t).isSome

end Scan
end Errata
