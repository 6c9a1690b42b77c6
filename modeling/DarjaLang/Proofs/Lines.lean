import DarjaLang.Lines

/-!
# Lines of a text that is put together

A newline ends a line for good: what stands behind it does not change the lines in front of it.

* `Lines.IsWhole` are the texts that consist of whole lines.
* `Lines.ofText_append`: behind such a text, another one keeps its lines.
-/

set_option autoImplicit false

namespace DarjaLang

namespace Lines

section Cut

variable {α : Type} [DecidableEq α]

/-- A newline cuts an input in two. -/
theorem cut_append_newline (newline carriageReturn : α) (read front behind : List α) :
    cut newline carriageReturn read (front ++ newline :: behind) =
      cut newline carriageReturn read (front ++ [newline]) ++
        cut newline carriageReturn [] behind := by
  induction front generalizing read with
  | nil => simp [cut]
  | cons c front ih =>
    by_cases hc : c = newline
    · simp only [List.cons_append, cut, if_pos hc, ih]
    · simp only [List.cons_append, cut, if_neg hc, ih]

end Cut

/-- The last line of the text, if it has any, is ended by a newline. -/
def IsWhole (text : String) : Prop := ∀ c, text.toList.getLast? = some c → c = '\n'

/-- Behind whole lines, a text keeps its lines. -/
theorem ofText_append {front : String} (h : IsWhole front) (behind : String) :
    ofText (front ++ behind) = ofText front ++ ofText behind := by
  rw [ofText, ofText, ofText, ← List.map_append, String.toList_append]
  congr 1
  cases hlast : front.toList.getLast? with
  | none =>
    rw [List.getLast?_eq_none_iff.1 hlast]
    rfl
  | some c =>
    obtain ⟨lines, hlines⟩ := List.getLast?_eq_some_iff.1 hlast
    rw [hlines, h c hlast, List.append_assoc, List.singleton_append]
    exact cut_append_newline '\n' '\r' [] lines behind.toList

end Lines

end DarjaLang
