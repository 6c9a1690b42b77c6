import DarjaLang.Proofs.Session.Pending
import DarjaLang.Proofs.Session.Transcript

/-!
# Echoing

A session may be set up to echo: then it writes the value of a line or block that is an expression,
unless that value is `walou`.  Expressions elsewhere, in the blocks of conditionals and loops, are
not echoed, and nothing else about the session depends on this.

* `Session.echoing` is the session with echoing switched on or off.
* `Session.Adds s line extra` says what there is to echo for a line: at most one value.
* `feedLine_echoing`: where there is nothing to echo, the setting makes no difference, whatever the
  sink does.
* `Writes.exists_both` compares the two settings for one line, and `echo_adds_values` is the result
  for the course of a session.
-/

set_option autoImplicit false

namespace DarjaLang

/-! ## The setting -/

/-- The session with echoing switched on or off. -/
def Session.echoing (s : Session) (echo : Bool) : Session :=
  { s with config := { s.config with echo := echo } }

/-- The same answer of the session with echoing switched on or off. -/
def Answer.echoing (a : Answer) (echo : Bool) : Answer :=
  { a with session := a.session.echoing echo }

theorem Answer.andThen_echoing {a : Answer} {echo : Bool} {f : Session → Sink → Answer}
    (hf : ∀ sink, f (a.session.echoing echo) sink = (f a.session sink).echoing echo) :
    (a.echoing echo).andThen f = (a.andThen f).echoing echo :=
  andThen_change (·.echoing echo) id (hf a.sink)

namespace Session

variable {s s' s'' : Session} {bound : Nat} {line : String} {lines : List String}
  {ts : List Token} {sink : Sink} {echo : Bool} {items extra : List Item}
  {written : List (List Item)}

/-- What there is to echo for a line: the value of the expression that the line is, or the block
that it closes, unless that is `walou`. -/
inductive Adds (s : Session) (line : String) : List Item → Prop
  | value {ts : List Token} {e : Expr} {position : Position} {v : Value}
      (h : s.Executes line ts) (hread : Statement.ofTokens ts = .expression e position)
      (heval : e.eval s.env = .ok v) (hv : v ≠ .walou) : Adds s line [.echoed v]
  | nothing (h : ∀ ts e position v, s.Executes line ts →
      Statement.ofTokens ts = .expression e position → e.eval s.env = .ok v → v = .walou) :
      Adds s line []

theorem Executes.unique {ts' : List Token} (h : s.Executes line ts) (h' : s.Executes line ts') :
    ts' = ts := by
  cases h with
  | statement _ hpending =>
    cases h' with
    | statement => rfl
    | block _ hsome => cases hpending.symm.trans hsome
  | block _ hpending =>
    cases h' with
    | statement _ hnone => cases hpending.symm.trans hnone
    | block _ hpending' =>
      cases hpending.symm.trans hpending'
      rfl

/-- There is one answer to what there is to echo. -/
theorem Adds.unique {extra' : List Item} (h : s.Adds line extra) (h' : s.Adds line extra') :
    extra' = extra := by
  cases h with
  | value hts hread heval hv =>
    cases h' with
    | value hts' hread' heval' =>
      cases hts.unique hts'
      cases hread.symm.trans hread'
      cases heval.symm.trans heval'
      rfl
    | nothing h => exact absurd (h _ _ _ _ hts hread heval) hv
  | nothing h =>
    cases h' with
    | value hts hread heval hv => exact absurd (h _ _ _ _ hts hread heval) hv
    | nothing => rfl

theorem exists_adds (s : Session) (line : String) : ∃ extra, s.Adds line extra := by
  by_cases h : ∀ ts e position v, s.Executes line ts →
      Statement.ofTokens ts = .expression e position → e.eval s.env = .ok v → v = .walou
  · exact ⟨[], .nothing h⟩
  · push Not at h
    obtain ⟨ts, e, position, v, hts, hread, heval, hv⟩ := h
    exact ⟨_, .value hts hread heval hv⟩

/-! ## Lines with nothing to echo -/

theorem conclude_echoing {result : Except Trouble Flow}
    (h : ∀ v, result = .ok (.next (some v)) → v = .walou) :
    (s.echoing echo).conclude result sink = (s.conclude result sink).echoing echo := by
  match result with
  | .error trouble => rfl
  | .ok .terminate => rfl
  | .ok (.next none) => rfl
  | .ok (.next (some v)) =>
    rw [h v rfl]
    rfl

/-- Where no value is left, a statement has the same effect under both settings. -/
theorem execute_echoing (h : ∀ e position v, Statement.ofTokens ts = .expression e position →
      e.eval s.env = .ok v → v = .walou) :
    (s.echoing echo).execute bound ts sink =
      (s.execute bound ts sink).map (·.echoing echo) := by
  refine execute_change (·.echoing echo) rfl rfl (fun _ => rfl) fun o hrun env sink => ?_
  refine conclude_echoing fun v hv => ?_
  obtain ⟨result, state⟩ := o
  cases hv
  obtain ⟨e, position, hread, heval, -⟩ := Statement.eq_expression_of_run hrun
  exact h e position v hread heval

theorem Executes.echoing (echo : Bool) (h : s.Executes line ts) :
    (s.echoing echo).Executes line ts := by
  cases h with
  | statement hended hpending hline hblock => exact .statement hended hpending hline hblock
  | block hended hpending hline hbalance => exact .block hended hpending hline hbalance

/-- What there is to echo does not depend on whether it is echoed. -/
theorem Adds.echoing (echo : Bool) (h : s.Adds line extra) : (s.echoing echo).Adds line extra := by
  cases h with
  | value hts hread heval hv => exact .value (hts.echoing echo) hread heval hv
  | nothing h =>
    exact .nothing fun ts e position v hts => h ts e position v (hts.echoing s.config.echo)

/-- Where there is nothing to echo, the setting makes no difference. -/
theorem feedLine_echoing {a : Answer} (echo : Bool) (h : s.Adds line [])
    (ha : s.feedLine bound line sink = some a) :
    (s.echoing echo).feedLine bound line sink = some (a.echoing echo) := by
  cases h with
  | nothing h =>
  rw [feedLine_eq_some_iff] at ha ⊢
  cases ha with
  | ended hended => exact .ended hended
  | blank hended hpending hline => exact .blank hended hpending hline
  | opens hended hpending hline hblock => exact .opens hended hpending hline hblock
  | statement hended hpending hline hblock ha =>
    refine .statement hended hpending hline hblock ?_
    have hts := Executes.statement hended hpending hline hblock
    exact (execute_echoing (s := s.counted) fun e position v => h _ e position v hts).trans
      (congrArg (Option.map _) ha)
  | @givesUp block hended hpending hline =>
    rw [← Answer.andThen_echoing fun _ => rfl]
    exact .givesUp (s := s.echoing echo) hended hpending hline
  | goesOn hended hpending hline hbalance => exact .goesOn hended hpending hline hbalance
  | closes hended hpending hline hbalance ha =>
    refine .closes hended hpending hline hbalance ?_
    have hts := Executes.block hended hpending hline hbalance
    exact (execute_echoing (s := s.counted.collecting none)
      fun e position v => h _ e position v hts).trans (congrArg (Option.map _) ha)

/-! ## Lines with a value -/

theorem Executes.feedLine_eq (h : s.Executes line ts) : s.feedLine bound line sink =
    (s.counted.collecting none).execute bound ts sink := by
  cases h with
  | statement hended hpending hline hblock =>
    have hcounted : s.counted.collecting none = s.counted := by
      rw [collecting, show none = s.counted.pending from hpending.symm]
    rw [hcounted, feedLine_of_statement hended hpending hline hblock]
  | block hended hpending hline hbalance =>
    exact feedLine_of_closes hended hpending hline hbalance

/-- All that becomes of an expression is its value, if that is echoed. -/
theorem execute_expression {e : Expr} {position : Position} {v : Value}
    (hread : Statement.ofTokens ts = .expression e position) (heval : e.eval s.env = .ok v)
    (hsink : sink.Works) : s.execute bound ts sink =
      some ⟨s, sink.taking (if s.echoes v then [.echoed v] else []) 1, none⟩ := by
  have hrun : (Statement.ofTokens ts).run s.config.limit bound ⟨s.env, #[]⟩ =
      some ⟨.ok (.next (some v)), ⟨s.env, #[]⟩⟩ := by
    rw [hread, Statement.run, heval]
  have htells : Tells (s.conclude (.ok (.next (some v)))) s
      (if s.echoes v then [.echoed v] else []) 0 := by
    intro sink hsink
    rw [conclude]
    split
    · rw [Sink.write_of_works hsink]
    · rw [Sink.taking_nil]
  exact execute_of_tells hrun htells hsink

/-- A line with a value is echoed or not, and nothing else becomes of it. -/
theorem writes_of_value {e : Expr} {position : Position} {v : Value} (h : s.Executes line ts)
    (hread : Statement.ofTokens ts = .expression e position) (heval : e.eval s.env = .ok v) :
    s.Writes line (if s.echoes v then [.echoed v] else []) (s.counted.collecting none) := by
  refine ⟨0, 1, fun sink hsink => ?_⟩
  rw [h.feedLine_eq]
  exact execute_expression (s := s.counted.collecting none) hread heval hsink

/-! ## Both settings -/

theorem Writes.echoing (echo : Bool) (hadds : s.Adds line []) (h : s.Writes line items s') :
    (s.echoing echo).Writes line items (s'.echoing echo) := by
  obtain ⟨bound, flushes, hfed⟩ := h
  exact ⟨bound, flushes, fun sink hsink => feedLine_echoing echo hadds (hfed sink hsink)⟩

/-- If a session gets done with a line under one setting, it does under both.  An echoing session
writes what it would write otherwise, and then what there is to echo. -/
theorem Writes.exists_both (h : (s.echoing echo).Writes line items s'')
    (hadds : s.Adds line extra) :
    ∃ (quiet : List Item) (s' : Session), s'' = s'.echoing echo ∧
      (s.echoing false).Writes line quiet (s'.echoing false) ∧
      (s.echoing true).Writes line (quiet ++ extra) (s'.echoing true) := by
  have hboth : ∃ (quiet : List Item) (s' : Session),
      (s.echoing false).Writes line quiet (s'.echoing false) ∧
        (s.echoing true).Writes line (quiet ++ extra) (s'.echoing true) := by
    cases hadds with
    | nothing hnothing =>
      have hadds : (s.echoing echo).Adds line [] := .echoing echo (.nothing hnothing)
      have hquiet := h.echoing false hadds
      have hloud := h.echoing true hadds
      refine ⟨items, s'', hquiet, ?_⟩
      rw [List.append_nil]
      exact hloud
    | @value ts e position v hts hread heval hv =>
      have hquiet := writes_of_value (hts.echoing false) hread heval
      have hloud := writes_of_value (hts.echoing true) hread heval
      have hsilent : (s.echoing false).echoes v = false := by cases v <;> rfl
      have hechoes : (s.echoing true).echoes v = true := by
        cases v with
        | walou => exact absurd rfl hv
        | _ => rfl
      rw [hsilent] at hquiet
      rw [hechoes] at hloud
      exact ⟨_, s.counted.collecting none, hquiet, hloud⟩
  obtain ⟨quiet, s', hquiet, hloud⟩ := hboth
  refine ⟨quiet, s', ?_, hquiet, hloud⟩
  cases echo with
  | false => exact (hquiet.unique h).2
  | true => exact (hloud.unique h).2

/-! ## The course of a session -/

/-- What there is to echo for lines that are fed one by one. -/
inductive AddsAll : Session → List String → List (List Item) → Prop
  | nil {s : Session} : AddsAll s [] []
  | cons {s s₁ : Session} {line : String} {lines : List String} {items extra : List Item}
      {extras : List (List Item)} (hadds : s.Adds line extra) (hline : s.Writes line items s₁)
      (hrest : AddsAll s₁ lines extras) : AddsAll s (line :: lines) (extra :: extras)

theorem AddsAll.unique {extras extras' : List (List Item)} (h : s.AddsAll lines extras)
    (h' : s.AddsAll lines extras') : extras' = extras := by
  induction h generalizing extras' with
  | nil =>
    cases h'
    rfl
  | cons hadds hline _ ih =>
    cases h' with
    | cons hadds' hline' hrest' =>
      cases hadds.unique hadds'
      obtain ⟨-, rfl⟩ := hline.unique hline'
      rw [ih hrest']

/-- If a session takes its course under one setting, it does under both. -/
theorem Transcript.exists_both (echo : Bool) (h : (s.echoing echo).Transcript lines written s'') :
    ∃ (quiets extras : List (List Item)) (s' : Session), s'' = s'.echoing echo ∧
      (s.echoing false).Transcript lines quiets (s'.echoing false) ∧
      (s.echoing false).AddsAll lines extras ∧
      (s.echoing true).Transcript lines (List.zipWith (· ++ ·) quiets extras)
        (s'.echoing true) := by
  induction lines generalizing s written with
  | nil =>
    cases h
    exact ⟨[], [], s, rfl, .nil, .nil, .nil⟩
  | cons line lines ih =>
    cases h with
    | cons hline hrest =>
      obtain ⟨extra, hadds⟩ := exists_adds s line
      obtain ⟨quiet, s₁, rfl, hquiet, hloud⟩ := hline.exists_both hadds
      obtain ⟨quiets, extras, s', rfl, hquiets, hextras, hlouds⟩ := ih hrest
      exact ⟨quiet :: quiets, extra :: extras, s', rfl, .cons hquiet hquiets,
        .cons (hadds.echoing false) hquiet hextras, .cons hloud hlouds⟩

theorem finish_echoing : (s.echoing echo).finish sink = (s.finish sink).echoing echo := by
  by_cases hended : s.hasEnded = true
  · rw [finish_of_hasEnded hended, finish_of_hasEnded (s := s.echoing echo) hended]
    rfl
  rw [Bool.not_eq_true] at hended
  cases hpending : s.pending with
  | none =>
    rw [finish_of_none hended hpending, finish_of_none (s := s.echoing echo) hended hpending]
    rfl
  | some block =>
    rw [finish_of_some hended hpending, finish_of_some (s := s.echoing echo) hended hpending]
    exact Answer.andThen_echoing (a := (s.collecting none).report block.complaint sink) fun _ => rfl

/-- **Echoing changes nothing but what is echoed.**  Fed the same lines, a session that echoes and
one that does not come to the same state, save for the setting itself, or neither of them gets done
with the lines.  As this holds of all lines, they agree after each line.  For each line, the one
that echoes writes what the other one writes, and then the value of the line, if the line or the
block that it closes is an expression with a value other than `walou`.  At the end of the input they
do the same. -/
theorem echo_adds_values (limit : Option UInt64) (lines : List String) :
    (∀ louds s'', (start ⟨true, limit⟩).Transcript lines louds s'' ↔
      ∃ quiets extras s', (start ⟨false, limit⟩).Transcript lines quiets s' ∧
        (start ⟨false, limit⟩).AddsAll lines extras ∧
        louds = List.zipWith (· ++ ·) quiets extras ∧ s'' = s'.echoing true) ∧
    ((∃ louds s'', (start ⟨true, limit⟩).Transcript lines louds s'') ↔
      ∃ quiets s', (start ⟨false, limit⟩).Transcript lines quiets s') ∧
    ∀ (s : Session) (sink : Sink), (s.echoing true).finish sink = (s.finish sink).echoing true := by
  have hboth : ∀ echo {written s''}, (start ⟨echo, limit⟩).Transcript lines written s'' →
      ∃ (quiets extras : List (List Item)) (s' : Session), s'' = s'.echoing echo ∧
        (start ⟨false, limit⟩).Transcript lines quiets (s'.echoing false) ∧
        (start ⟨false, limit⟩).AddsAll lines extras ∧
        (start ⟨true, limit⟩).Transcript lines (List.zipWith (· ++ ·) quiets extras)
          (s'.echoing true) :=
    fun echo _ _ h => Transcript.exists_both (s := start ⟨false, limit⟩) echo h
  refine ⟨fun louds s'' => ⟨fun h => ?_, ?_⟩, ⟨?_, ?_⟩, fun s sink => finish_echoing⟩
  · obtain ⟨quiets, extras, s', rfl, hquiets, hextras, hlouds⟩ := hboth true h
    obtain ⟨rfl, -⟩ := h.unique hlouds
    exact ⟨quiets, extras, s'.echoing false, hquiets, hextras, rfl, rfl⟩
  · rintro ⟨quiets, extras, s', hquiets, hextras, rfl, rfl⟩
    obtain ⟨_, _, s', rfl, hquiets', hextras', hlouds⟩ := hboth false hquiets
    obtain ⟨rfl, -⟩ := hquiets.unique hquiets'
    cases hextras.unique hextras'
    exact hlouds
  · rintro ⟨louds, s'', h⟩
    obtain ⟨quiets, extras, s', -, hquiets, -⟩ := hboth true h
    exact ⟨quiets, _, hquiets⟩
  · rintro ⟨quiets, s', h⟩
    obtain ⟨_, _, s', -, -, -, hlouds⟩ := hboth false h
    exact ⟨_, _, hlouds⟩

set_option maxRecDepth 1000 in
/-- A truth value is echoed, and `walou` is not. -/
theorem echo_adds_values_walou :
    (start ⟨false, none⟩).Transcript ["sah", "walou"] [[], []]
        ⟨⟨false, none⟩, .empty, 2, 0, none, none⟩ ∧
      (start ⟨true, none⟩).Transcript ["sah", "walou"] [[.echoed (.boolean true)], []]
        ⟨⟨true, none⟩, .empty, 2, 0, none, none⟩ := by
  have hvalue : (start ⟨false, none⟩).feedLine 0 "sah" .working =
      some ⟨⟨⟨false, none⟩, .empty, 1, 0, none, none⟩,
        ⟨Sink.working.writeFate, Sink.working.flushFate, 0, 1, #[]⟩, none⟩ := by cbv
  have hnothing : feedLine ⟨⟨false, none⟩, .empty, 1, 0, none, none⟩ 0 "walou" .working =
      some ⟨⟨⟨false, none⟩, .empty, 2, 0, none, none⟩,
        ⟨Sink.working.writeFate, Sink.working.flushFate, 0, 1, #[]⟩, none⟩ := by cbv
  have hsah : Statement.ofTokens (Token.scan "sah" 1) =
      .expression (.literal (.boolean true) ⟨1, 1⟩) ⟨1, 1⟩ := by cbv
  have hwalou : Statement.ofTokens (Token.scan "walou" 2) =
      .expression (.literal .walou ⟨2, 1⟩) ⟨2, 1⟩ := by cbv
  have hadds : (start ⟨false, none⟩).Adds "sah" [.echoed (.boolean true)] :=
    .value (.statement rfl rfl (by decide) (by cbv)) hsah rfl (fun h => by cases h)
  have hadds' : Adds ⟨⟨false, none⟩, .empty, 1, 0, none, none⟩ "walou" [] := by
    refine .nothing fun ts e position v hts hread heval => ?_
    obtain rfl := (Executes.statement rfl rfl (by decide) (by cbv)).unique hts
    cases hread.symm.trans hwalou
    cases heval
    rfl
  have hquiet := writes_of_working hvalue
  have hquiet' := writes_of_working hnothing
  obtain ⟨hcourse, -, -⟩ := echo_adds_values none ["sah", "walou"]
  exact ⟨.cons hquiet (.single hquiet'), (hcourse _ _).2 ⟨_, _, _, .cons hquiet (.single hquiet'),
    .cons hadds hquiet (.cons hadds' hquiet' .nil), rfl, rfl⟩⟩

end Session

end DarjaLang
