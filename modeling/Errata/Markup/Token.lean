import Errata.Markup.Tag

/-!
Markup is cut into tokens one after another: comments and declarations, tags, elements whose content is
raw text, and the text between these. Every token is at least one character, and together they are the
whole text.
-/

namespace Errata.Markup

inductive Token where
  | text (span : Span)
  /-- A comment or a declaration. -/
  | comment (span : Span)
  | startTag (tag : Tag) (span : Span)
  /-- A start tag with raw text up to its end tag, or up to the end of the source. -/
  | rawElement (tag : Tag) (span : Span) (inner : Span) (endTag : Option Span)
  | endTag (name : Text) (span : Span)
deriving DecidableEq, Repr

/-- Elements whose content holds no markup. -/
def rawTextNames : List Text := ["script", "style"].map String.toList

/-- The number of characters through the first occurrence of `needle`, or of all characters. -/
def widthThrough (needle : String) (t : Text) : Nat :=
  match t.find? needle.toList with
  | some n => n + needle.toList.length
  | none => t.length

/-- The span of the characters from the `n`th up to the `m`th. -/
def spanOf (c : Cursor) (n m : Nat) : Span := ⟨(c.advance n).offset, (c.advance m).offset⟩

/-- The element whose start tag has `n` characters, and the number of its characters. Its end tag is
the first that begins with its name, in any case. -/
def rawElement (c : Cursor) (tag : Tag) (n : Nat) : Token × Nat :=
  let content := c.rest.drop n
  match (Text.toLower content).find? ("</".toList ++ tag.name) with
  | some i =>
    let stop := n + i + widthThrough ">" (content.drop i)
    (.rawElement tag (spanOf c 0 n) (spanOf c n (n + i)) (some (spanOf c (n + i) stop)), stop)
  | none =>
    let stop := c.rest.length
    (.rawElement tag (spanOf c 0 n) (spanOf c n stop) none, stop)

/-- The next token and the number of its characters. Text runs up to the next `<`; a `<` that begins
no tag is text. -/
def nextToken (c : Cursor) : Token × Nat :=
  if c.rest.startsWith "<!--" then
    let n := widthThrough "-->" c.rest
    (.comment (spanOf c 0 n), n)
  else if c.rest.startsWith "<!" || c.rest.startsWith "<?" then
    let n := widthThrough ">" c.rest
    (.comment (spanOf c 0 n), n)
  else match endTag? c.rest with
    | some (name, n) => (.endTag name (spanOf c 0 n), n)
    | none =>
      match startTag? c.rest with
      | some (tag, n) =>
        if rawTextNames.contains tag.name && !tag.closed then rawElement c tag n
        else (.startTag tag (spanOf c 0 n), n)
      | none =>
        let n := 1 + ((c.rest.drop 1).takeWhile (· ≠ '<')).length
        (.text (spanOf c 0 n), n)

theorem widthThrough_pos {needle : String} {t : Text} (hneedle : needle.toList ≠ [])
    (ht : t ≠ []) : 0 < widthThrough needle t := by
  have := List.length_pos_iff.mpr hneedle
  have := List.length_pos_iff.mpr ht
  unfold widthThrough
  split <;> omega

theorem rawElement_pos (c : Cursor) (tag : Tag) {n : Nat} (hn : 0 < n) (h : c.rest ≠ []) :
    0 < (rawElement c tag n).2 := by
  have := List.length_pos_iff.mpr h
  unfold rawElement
  simp only
  split <;> simp only <;> omega

theorem nextToken_pos {c : Cursor} (h : c.rest ≠ []) : 0 < (nextToken c).2 := by
  have hlength := List.length_pos_iff.mpr h
  unfold nextToken
  split
  · exact widthThrough_pos (by decide) h
  split
  · exact widthThrough_pos (by decide) h
  split
  · rename_i hend
    exact endTag?_pos hend
  split
  · rename_i hstart
    have hn := startTag?_pos hstart
    split
    · exact rawElement_pos c _ hn h
    · exact hn
  · simp only
    omega

/-- The tokens of the rest of a text. -/
def tokens (c : Cursor) : List Token :=
  if _ : c.rest = [] then []
  else (nextToken c).1 :: tokens (c.advance (nextToken c).2)
termination_by c.rest.length
decreasing_by
  have hrest : c.rest ≠ [] := by assumption
  have := nextToken_pos hrest
  have := List.length_pos_iff.mpr hrest
  simp only [Cursor.rest_advance, List.length_drop]
  omega

end Errata.Markup
