import AtomicCss.Proofs.Session.Chronicle

/-
  This file proves that all text that a session announces was
  appended to a sheet, and that nothing else was.

  A call is delivered if the sheets after it are the ones
  before it with the text of its notices, each appended to the
  sheet of its own partition. Deliveries follow one another,
  so a start is delivered as a whole: from the sheets that it
  begins with, which are empty but for the one it brings.

  Key definitions include:
    * `Sheet.receive`
    * `Session.Delivers`
    * `Session.readied`

  The main statements are:
    * `Session.Delivers.run`
    * `Session.Delivers.runAll`
    * `Session.delivers_perform`
-/

namespace AtomicCss

------------------------------------------------------------
-- Notices
------------------------------------------------------------

/- Append the texts of notices at their breakpoints. -/
def Sheet.receive
    (cascade : Cascade)
    (sheet : Sheet)
    (notices : List Appended) : Sheet :=
  notices.foldl
    (fun sheet a => sheet.appendNamed cascade a.breakpoint a.css)
    sheet

theorem Sheet.receive_append
    (cascade : Cascade)
    (sheet : Sheet)
    (xs ys : List Appended) :
    sheet.receive cascade (xs ++ ys) =
      (sheet.receive cascade xs).receive cascade ys :=
  List.foldl_append

/- To append chunks is to append their notices. -/
theorem Sheet.receive_notices
    (cascade : Cascade)
    (sheet : Sheet)
    (scope : Option Nat)
    (chunks : List Chunk) :
    sheet.receive cascade (chunks.map (Chunk.notice scope)) =
      sheet.appendAll cascade chunks :=
  List.foldl_map

namespace Session

/-
  What lies between two sessions if one delivers its events to
  the sheets of the other: each announced text is for a known
  breakpoint of a partition that is there, and the sheets have
  received just the text that was announced for them.
-/
structure Delivers
    (env : Environment)
    (s : Session)
    (events : List Event)
    (t : Session) : Prop where
  addressed :
    ∀ a, .appended a ∈ events →
      (s.sheet? a.scope).isSome = true ∧
      ∃ b ∈ env.cascade.breakpoints, b.name = a.breakpoint
  received :
    ∀ scope,
      t.sheet? scope =
        (s.sheet? scope).map (fun sheet =>
          sheet.receive env.cascade
            (Event.noticesFor scope events))

namespace Delivers

variable {env : Environment} {s t u : Session}
variable {xs ys : List Event}

theorem refl
    (env : Environment)
    (s : Session) :
    Delivers env s [] s where
  addressed _ ha := absurd ha List.not_mem_nil
  received scope := by
    cases s.sheet? scope <;> rfl

/- Two deliveries in a row are one. -/
theorem trans
    (h : Delivers env s xs t)
    (h' : Delivers env t ys u) :
    Delivers env s (xs ++ ys) u where
  addressed a ha := by
    rcases List.mem_append.1 ha with hFirst | hSecond
    · exact h.addressed a hFirst
    · have hLater := h'.addressed a hSecond
      rw [h.received, Option.isSome_map] at hLater
      exact hLater
  received scope := by
    rw [h'.received, h.received, Option.map_map,
      Event.noticesFor_append]
    congr 1
    funext sheet
    exact (sheet.receive_append _ _ _).symm

/- The end of a start is delivered to no sheet. -/
theorem concat_initialized
    (h : Delivers env s xs t)
    (ready : Bool) :
    Delivers env s (xs ++ [.initialized ready]) t where
  addressed a ha := by
    rcases List.mem_append.1 ha with hFirst | hLast
    · exact h.addressed a hFirst
    · cases List.mem_singleton.1 hLast
  received scope := by
    rw [h.received, Event.noticesFor_append]
    exact congrArg (fun notices =>
      (s.sheet? scope).map (Sheet.receive env.cascade · notices))
        (List.append_nil _).symm

/- Sheets do not depend on what waits, nor on the first signal. -/
theorem besides
    (h : Delivers env s xs t)
    (pending : List Call)
    (initialized : Signal Bool) :
    Delivers env s xs (t.besides pending initialized) where
  addressed := h.addressed
  received scope := by
    rw [Session.sheet?, partition?_besides]
    exact h.received scope

------------------------------------------------------------
-- Calls
------------------------------------------------------------

/- A call delivers what it announces. -/
theorem run
    (hEnv : s.environment? = some env)
    (call : Call) :
    Delivers env s (s.run call).events (s.run call).session := by
  rcases s.run_cases call with
    ⟨_, hRun⟩ | ⟨env', p, hEnv', hPartition, _, hRun⟩
  · rw [hRun]
    exact refl env s
  · cases hEnv.symm.trans hEnv'
    have hSheet : s.sheet? call.scope = some p.sheet := by
      rw [Session.sheet?, hPartition]
      rfl
    constructor
    · intro a ha
      rw [s.events_run call hEnv hPartition, List.map_map] at ha
      rcases List.mem_map.1 ha with ⟨c, hc, hNotice⟩
      cases hNotice
      rcases List.mem_map.1 hc with ⟨b, hb, rfl⟩
      refine ⟨?_, b, (List.mem_filter.1 hb).1, rfl⟩
      exact hSheet ▸ rfl
    · intro scope
      rw [s.events_run call hEnv hPartition,
        Event.noticesFor_announced, hRun, Session.sheet?,
        partition?_deliver]
      by_cases hOwn : scope = call.scope
      · subst hOwn
        rw [if_pos rfl, if_pos rfl, hSheet, Option.map_some,
          Option.map_some, Sheet.receive_notices]
      · rw [if_neg hOwn, if_neg (Ne.symm hOwn)]
        change s.sheet? scope = _
        cases s.sheet? scope <;> rfl

/- So do several calls, one after another. -/
theorem runAll
    (hEnv : s.environment? = some env)
    (calls : List Call) :
    Delivers env s (s.runAll calls).events
      (s.runAll calls).session := by
  induction calls generalizing s with
  | nil => exact refl env s
  | cons call calls ih =>
      rw [runAll_cons]
      exact (run hEnv call).trans
        (ih ((s.environment?_run call).trans hEnv))

end Delivers

------------------------------------------------------------
-- Operations
------------------------------------------------------------

/-
  The session in which an operation begins to compile: a start
  that succeeds empties all partitions first.
-/
def readied
    (s : Session) : Operation → Session
  | .start o =>
      match o.opens? with
      | some env => s.activate env o.target
      | none => s
  | _ => s

theorem readied_of_call?
    (s : Session)
    {op : Operation}
    {call : Call}
    (hCall : op.call? = some call) :
    s.readied op = s := by
  cases op with
  | start o => cases hCall
  | _ => rfl

variable (s : Session)

/- A call that is served is delivered. -/
theorem delivers_perform_call
    {op : Operation}
    {call : Call}
    (hCall : op.call? = some call)
    (hText : (s.perform op).events ≠ []) :
    ∃ env,
      (s.perform op).session.environment? = some env ∧
      Delivers env (s.readied op) (s.perform op).events
        (s.perform op).session := by
  rcases s.perform_call_cases hCall with
    ⟨_, pending, hPerform⟩ | ⟨env, _, hEnv, _, _, hPerform⟩
  · rw [hPerform] at hText
    exact absurd rfl hText
  · rw [s.readied_of_call? hCall, hPerform]
    exact ⟨env, (s.environment?_run call).trans hEnv,
      Delivers.run hEnv call⟩

/- So is a start, if it succeeds, with all the calls that it runs. -/
theorem delivers_start
    (o : Setup)
    (hText : (s.perform (.start o)).events ≠ []) :
    ∃ env,
      (s.perform (.start o)).session.environment? = some env ∧
      Delivers env (s.readied (.start o))
        (s.perform (.start o)).events
        (s.perform (.start o)).session := by
  rcases o.cases with
    ⟨env, hOpens⟩ | ⟨_, hFails⟩ | ⟨_, hDisabled⟩
  · have hReadied :
        s.readied (.start o) = s.activate env o.target := by
      rw [readied, hOpens]
    let calls := whitelistCalls o.whitelist ++ s.pending
    let ran := (s.activate env o.target).runAll calls
    have hRan :
        Delivers env (s.activate env o.target) ran.events
          ran.session :=
      Delivers.runAll rfl calls
    have hEnv : ran.session.environment? = some env := by
      rw [environment?, phase_runAll]
      rfl
    rw [hReadied, perform, s.start_runs hOpens]
    exact ⟨env, hEnv,
      (hRan.concat_initialized true).besides []
        (s.initialized.set true)⟩
  · rcases s.perform_of_fails hFails with ⟨e, hPerform⟩
    rw [hPerform] at hText
    exact absurd rfl hText
  · rw [perform, s.start_of_disabled hDisabled] at hText
    exact absurd rfl hText

/-
  An operation with events is delivered, whatever it is: only
  what compiles has any.
-/
theorem delivers_perform
    (op : Operation)
    (hText : (s.perform op).events ≠ []) :
    ∃ env,
      (s.perform op).session.environment? = some env ∧
      Delivers env (s.readied op) (s.perform op).events
        (s.perform op).session := by
  cases op using Operation.cases_call with
  | start o => exact s.delivers_start o hText
  | compiling op call hCall =>
      exact s.delivers_perform_call hCall hText
  | createScope target => exact absurd rfl hText
  | dropScope id => exact absurd rfl hText

end Session

end AtomicCss
