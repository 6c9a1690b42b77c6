import DarjaLang.Proofs.Session.Working

/-!
# The course of a session

What a session writes is best kept apart by lines.

* `Session.Transcript s lines written s'` says that the session, fed the lines one by one, writes
  the items of `written`, one list for each line, and becomes `s'`.  There is at most one such
  course (`Transcript.unique`).
* `transcript_of_feedAll` and `exists_feedAll` say that a whole input is fed in this way, up to the
  end of the session or of the input.  Lines behind the end of a session have no effect, so they do
  no harm in a transcript.
-/

set_option autoImplicit false

namespace DarjaLang

namespace Session

/-- Fed the lines one by one, the session writes the items listed for each of them and becomes the
other one. -/
inductive Transcript : Session → List String → List (List Item) → Session → Prop
  | nil {s : Session} : Transcript s [] [] s
  | cons {s s₁ s' : Session} {line : String} {items : List Item} {lines : List String}
      {written : List (List Item)} (hline : s.Writes line items s₁)
      (hrest : Transcript s₁ lines written s') :
      Transcript s (line :: lines) (items :: written) s'

variable {s s₁ s' s'' : Session} {bound looked : Nat} {line : String} {sink : Sink} {a : Answer}
  {items : List Item} {lines more : List String} {written written' : List (List Item)}

theorem Transcript.append (h : s.Transcript lines written s₁)
    (h' : s₁.Transcript more written' s') :
    s.Transcript (lines ++ more) (written ++ written') s' := by
  induction h with
  | nil => exact h'
  | cons hline _ ih => exact .cons hline (ih h')

theorem Transcript.single (h : s.Writes line items s') : s.Transcript [line] [items] s' :=
  .cons h .nil

/-- A course over some lines and more is one over the lines and another one over what is more. -/
theorem Transcript.exists_append (h : s.Transcript (lines ++ more) written s') :
    ∃ first last s₁, written = first ++ last ∧ s.Transcript lines first s₁ ∧
      s₁.Transcript more last s' := by
  induction lines generalizing s written with
  | nil => exact ⟨[], written, s, rfl, .nil, h⟩
  | cons line lines ih =>
    rw [List.cons_append] at h
    cases h with
    | cons hline hrest =>
      obtain ⟨first, last, s₁, rfl, hfirst, hlast⟩ := ih hrest
      exact ⟨_, last, s₁, rfl, .cons hline hfirst, hlast⟩

theorem Transcript.unique (h : s.Transcript lines written s')
    (h' : s.Transcript lines written' s'') : written' = written ∧ s'' = s' := by
  induction h generalizing written' with
  | nil =>
    cases h'
    exact ⟨rfl, rfl⟩
  | cons hline _ ih =>
    cases h' with
    | cons hline' hrest' =>
      obtain ⟨rfl, rfl⟩ := hline.unique hline'
      obtain ⟨rfl, rfl⟩ := ih hrest'
      exact ⟨rfl, rfl⟩

/-- Behind lines whose course is known, only the course of what is more is open. -/
theorem Transcript.append_iff (h : s.Transcript lines written s₁) :
    s.Transcript (lines ++ more) written' s' ↔
      ∃ last, written' = written ++ last ∧ s₁.Transcript more last s' := by
  constructor
  · intro hcourse
    obtain ⟨first, last, s₂, rfl, hfirst, hlast⟩ := hcourse.exists_append
    obtain ⟨rfl, rfl⟩ := h.unique hfirst
    exact ⟨last, rfl, hlast⟩
  · rintro ⟨last, rfl, hlast⟩
    exact h.append hlast

/-! ## Behind the end -/

theorem writes_of_hasEnded (h : s.hasEnded = true) (line : String) : s.Writes line [] s :=
  ⟨0, 0, fun sink _ => by rw [feedLine_of_hasEnded h, Sink.taking_nil]⟩

/-- Behind the end of a session, nothing is written. -/
theorem transcript_of_hasEnded (h : s.hasEnded = true) (lines : List String) :
    s.Transcript lines (.replicate lines.length []) s := by
  induction lines with
  | nil => exact .nil
  | cons line lines ih => exact .cons (writes_of_hasEnded h line) ih

theorem atEnd_of_hasEnded (h : s.hasEnded = true) : s.atEnd = [] := by
  rw [atEnd, finish_of_hasEnded h]
  rfl

theorem finished_of_hasEnded (h : s.hasEnded = true) : s.finished = s := by
  rw [finished, finish_of_hasEnded h]

/-! ## Whole inputs -/

/-- An input is fed line by line, and its end comes behind the last line. -/
theorem transcript_of_feedAll (hsink : sink.Works)
    (h : s.feedAll bound (lines.map .ok) sink = some (a, looked)) :
    ∃ written s' flushes, s.Transcript lines written s' ∧
      a = ⟨s'.finished, sink.taking (written.flatten ++ s'.atEnd) flushes, none⟩ := by
  induction lines generalizing s sink looked with
  | nil =>
    cases h
    exact ⟨[], s, 0, .nil, tells_finish s sink hsink⟩
  | cons line lines ih =>
    rw [List.map_cons, feedAll] at h
    split at h
    · cases h
    next fed hfed =>
    obtain ⟨items, flushes, hanswer, hline⟩ := writes_of_feedLine hsink hfed
    obtain ⟨next, sink', failure⟩ := fed
    cases hanswer
    split at h
    · next hstop =>
      have hended : next.hasEnded = true := hstop
      cases h
      refine ⟨_, _, flushes, .cons hline (transcript_of_hasEnded hended lines), ?_⟩
      rw [finished_of_hasEnded hended, atEnd_of_hasEnded hended, List.flatten_cons,
        List.flatten_replicate_nil, List.append_nil, List.append_nil]
    · obtain ⟨⟨last, rest⟩, hrest, hlast⟩ := Option.map_eq_some_iff.1 h
      cases hlast
      obtain ⟨written, s', flushes', hcourse, rfl⟩ := ih (hsink.taking _ _) hrest
      refine ⟨_, _, flushes + flushes', .cons hline hcourse, ?_⟩
      rw [Sink.taking_taking, List.flatten_cons, List.append_assoc]

/-- What a session writes line by line, it writes for the input as a whole. -/
theorem exists_feedAll (h : s.Transcript lines written s') :
    ∃ bound, ∀ bound', bound ≤ bound' → ∀ sink : Sink, sink.Works → ∃ looked flushes,
      s.feedAll bound' (lines.map .ok) sink =
        some (⟨s'.finished, sink.taking (written.flatten ++ s'.atEnd) flushes, none⟩, looked) := by
  induction h with
  | nil =>
    refine ⟨0, fun _ _ sink hsink => ⟨0, 0, ?_⟩⟩
    rw [List.map_nil, feedAll, tells_finish _ sink hsink, List.flatten_nil, List.nil_append]
  | @cons s s₁ s' line items lines written hline hrest ih =>
    obtain ⟨bound, flushes, hfed⟩ := hline
    obtain ⟨bound', hall⟩ := ih
    refine ⟨max bound bound', fun bound'' hbound sink hsink => ?_⟩
    have hfed := feedLine_mono (Nat.le_trans (Nat.le_max_left _ _) hbound) (hfed sink hsink)
    obtain ⟨looked, flushes', hall⟩ :=
      hall bound'' (Nat.le_trans (Nat.le_max_right _ _) hbound) _ (hsink.taking items flushes)
    by_cases hended : s₁.hasEnded = true
    · -- The session ends here, and the other lines are not even looked at.
      obtain ⟨rfl, rfl⟩ := (transcript_of_hasEnded hended lines).unique hrest
      refine ⟨1, flushes, ?_⟩
      rw [List.map_cons, feedAll, hfed, finished_of_hasEnded hended, atEnd_of_hasEnded hended]
      simp [hended]
    · refine ⟨looked + 1, flushes + flushes', ?_⟩
      rw [List.map_cons, feedAll, hfed]
      dsimp only
      rw [hall, if_neg (by simp [hended]), List.flatten_cons, List.append_assoc,
        Sink.taking_taking]
      rfl

end Session

end DarjaLang
