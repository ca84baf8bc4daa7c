import AtomicCss.Proofs.Session.Consistency

/-
  This file proves that a sheet is exactly the log of what was
  announced for it since the last start, at each breakpoint in
  the order of the announcements.

  Key definitions include:
    * `Chronicle.textsAt`

  The main statements are:
    * `Chronicle.textsAt_eq`
    * `Chronicle.sections_sheet?`
    * `Chronicle.sheets_log_events`
-/

namespace AtomicCss

------------------------------------------------------------
-- Texts of events
------------------------------------------------------------

theorem Section.css_ofTexts
    (text? : Breakpoint → Option String)
    (bs : List Breakpoint) :
    (ofTexts text? bs).map Section.css = bs.filterMap text? := by
  rw [ofTexts, List.map_filterMap]
  apply List.filterMap_congr
  intro b _
  cases text? b <;> rfl

namespace Chronicle

/- The texts announced for a partition at a breakpoint, in order. -/
def textsAt
    (c : Chronicle)
    (scope : Option Nat)
    (name : String) : List String :=
  ((c.notices scope).filter
    (fun a => a.breakpoint = name)).map Appended.css

variable {c : Chronicle}

theorem textsAt_eq
    (hc : c.Consistent)
    {env : Environment}
    (hEnv : c.environment = some env)
    (scope : Option Nat)
    (name : String) :
    c.textsAt scope name =
      Chunk.textsAt
        (env.emitted scope.isSome (c.batches scope)) name := by
  rw [textsAt, hc.logged env hEnv scope, List.filter_map,
    List.map_map]
  rfl

/- The sections of a sheet are the announced texts, in order. -/
theorem sections_sheet?
    (hc : c.Consistent)
    {env : Environment}
    (hEnv : c.environment = some env)
    {scope : Option Nat}
    {sheet : Sheet}
    (hSheet : c.session.sheet? scope = some sheet) :
    sheet.sections =
      Section.ofTexts
        (fun b => Text.joined? (c.textsAt scope b.name))
        env.cascade.breakpoints := by
  rcases Option.map_eq_some_iff.1 hSheet with ⟨p, hPartition, rfl⟩
  rw [hc.filled env hEnv scope p hPartition, env.sections_filled]
  simp only [textsAt_eq hc hEnv]

/-
  At each breakpoint of the last start, the sheet of a
  partition has the texts of its events since that start, put
  together in order, and no section without an event. The
  sections stand in increasing rank, and together they are the
  whole sheet. An operation that compiles has for its events
  just the text that it answers.
-/
theorem sheets_log_events
    {ops : List Operation}
    (hEmpty : ∀ op ∈ ops, op.BringsEmpty) :
    let c := Chronicle.after ops
    (∀ env scope sheet,
      c.environment = some env →
      c.session.sheet? scope = some sheet →
      (∀ b ∈ env.cascade.breakpoints,
        sheet.get? b.name =
          Text.joined? (c.textsAt scope b.name)) ∧
      sheet.sections =
        Section.ofTexts (fun b => sheet.get? b.name)
          env.cascade.breakpoints ∧
      (sheet.sections.map Section.rank).Pairwise (· < ·) ∧
      sheet.css =
        String.join
          (env.cascade.breakpoints.filterMap
            (fun b => sheet.get? b.name))) ∧
    ∀ op call, op.call? = some call →
      ∃ outcome,
        (c.session.perform op).result = .ok (.compiled outcome) ∧
        (c.session.perform op).events =
          outcome.emitted.map
            (fun chunk => .appended (chunk.notice call.scope)) := by
  intro c
  refine ⟨?_, fun op call hCall => c.session.perform_announces hCall⟩
  intro env scope sheet hEnv hSheet
  have hSections :=
    sections_sheet? (consistent_after hEmpty) hEnv hSheet
  have hTexts :
      ∀ b ∈ env.cascade.breakpoints,
        sheet.get? b.name =
          Text.joined? (c.textsAt scope b.name) :=
    fun b hb => Sheet.get?_of_sections hSections hb
  have hOwn :
      sheet.sections =
        Section.ofTexts (fun b => sheet.get? b.name)
          env.cascade.breakpoints := by
    rw [hSections]
    apply List.filterMap_congr
    intro b hb
    exact congrArg (Option.map _) (hTexts b hb).symm
  refine ⟨hTexts, hOwn, sheet.sorted, ?_⟩
  rw [Sheet.css, hOwn, Section.css_ofTexts]

/- A scope that is filled at two breakpoints, the later one first. -/
theorem sheets_log_events_of_swatches :
    let ops : List Operation :=
      [.createScope ∅,
        .start Setup.swatches,
        .compile ["md-up:color=blue"] (some 0),
        .compile ["color=red", "color=blue"] (some 0)]
    let c := Chronicle.after ops
    (∀ op ∈ ops, op.BringsEmpty) ∧
    ∃ env sheet,
      c.environment = some env ∧
      c.session.sheet? (some 0) = some sheet ∧
      sheet.css =
        String.join
          (env.cascade.breakpoints.filterMap
            (fun b => sheet.get? b.name)) ∧
      sheet.css =
        String.join
          [":host\x7bcolor:blue;\x7d",
            "@media (min-width: 768px) ",
            "\x7b:host\x7bcolor:blue;\x7d\x7d"] := by
  intro ops c
  have hEmpty : ∀ op ∈ ops, op.BringsEmpty := by decide
  have hEnv : ∃ env, c.environment = some env := ⟨_, rfl⟩
  have hSheet : ∃ sheet, c.session.sheet? (some 0) = some sheet :=
    ⟨_, rfl⟩
  have hCss :
      (c.session.sheet? (some 0)).map Sheet.css =
        some (String.join
          [":host\x7bcolor:blue;\x7d",
            "@media (min-width: 768px) ",
            "\x7b:host\x7bcolor:blue;\x7d\x7d"]) := by
    decide
  rcases hEnv with ⟨env, hEnv⟩
  rcases hSheet with ⟨sheet, hSheet⟩
  have hLog :=
    (sheets_log_events hEmpty).1 env (some 0) sheet hEnv hSheet
  rw [hSheet] at hCss
  exact ⟨hEmpty, env, sheet, hEnv, hSheet, hLog.2.2.2,
    Option.some.inj hCss⟩

end Chronicle

end AtomicCss
