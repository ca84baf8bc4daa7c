import AtomicCss.Proofs.Session.Operation

/-
  This file defines chronicles, which are sessions along with
  their history since the last start.

  The history has what the session compiles against, the calls
  that were served and the events. It is taken down operation
  by operation, but a start runs many calls; so its steps are
  also defined call by call.

  Key definitions include:
    * `Operation.served`
    * `Event.noticesFor`
    * `Chronicle`
    * `Chronicle.next`
    * `Chronicle.after`
    * `Chronicle.batches`
    * `Chronicle.notices`
    * `Chronicle.run`

  The main statements are:
    * `Chronicle.session_after`
    * `Chronicle.next_of_call?`
    * `Chronicle.next_of_opens?`
    * `Chronicle.batches_run`
    * `Chronicle.notices_run`
-/

namespace AtomicCss

------------------------------------------------------------
-- Histories
------------------------------------------------------------

namespace Operation

/- What is compiled against after an operation that opens. -/
def opens? : Operation → Option Environment
  | .start o => o.opens?
  | _ => none

/- The calls that an operation compiles, in order. -/
def served
    (s : Session)
    (op : Operation) : List Call :=
  match op with
  | .start o =>
      match o.opens? with
      | some env =>
          (Session.whitelistCalls o.whitelist ++ s.pending).filter
            (s.activate env o.target).serves
      | none => []
  | _ => op.call?.toList.filter s.serves

/- To compile is not to open. -/
theorem opens?_of_call?
    {op : Operation}
    {call : Call}
    (hCall : op.call? = some call) :
    op.opens? = none := by
  cases op with
  | start o => cases hCall
  | _ => rfl

/- An operation that compiles is served as its call is. -/
theorem served_of_call?
    (s : Session)
    {op : Operation}
    {call : Call}
    (hCall : op.call? = some call) :
    op.served s = [call].filter s.serves := by
  cases op <;> cases hCall <;> rfl

end Operation

/- The text that an event announces, if it does. -/
def Event.appended? : Event → Option Appended
  | .appended a => some a
  | .initialized _ => none

/- What events announce for a partition. -/
def Event.noticesFor
    (scope : Option Nat)
    (events : List Event) : List Appended :=
  (events.filterMap Event.appended?).filter
    (fun a => a.scope = scope)

theorem Event.noticesFor_append
    (scope : Option Nat)
    (xs ys : List Event) :
    noticesFor scope (xs ++ ys) =
      noticesFor scope xs ++ noticesFor scope ys := by
  rw [noticesFor, List.filterMap_append, List.filter_append]
  rfl

/- A call announces its chunks for its own scope only. -/
theorem Event.noticesFor_announced
    (chunks : List Chunk)
    (own scope : Option Nat) :
    noticesFor scope
        ((chunks.map (Chunk.notice own)).map Event.appended) =
      if own = scope then chunks.map (Chunk.notice scope)
      else [] := by
  have hSame :
      ((chunks.map (Chunk.notice own)).map
        Event.appended).filterMap Event.appended? =
          chunks.map (Chunk.notice own) := by
    rw [List.filterMap_map]
    exact List.filterMap_some
  rw [noticesFor, hSame]
  by_cases hScope : own = scope
  · subst hScope
    rw [if_pos rfl]
    apply List.filter_eq_self.2
    intro a ha
    rcases List.mem_map.1 ha with ⟨c, _, rfl⟩
    exact decide_eq_true rfl
  · rw [if_neg hScope]
    apply List.filter_eq_nil_iff.2
    intro a ha
    rcases List.mem_map.1 ha with ⟨c, _, rfl⟩
    exact fun h => hScope (of_decide_eq_true h)

/-
  A session with its history since the last start that
  succeeded. Before the first one there is no environment.
-/
structure Chronicle where
  session : Session := .new
  environment : Option Environment := none
  calls : List Call := []
  events : List Event := []

namespace Chronicle

/- The chronicle after one more operation. -/
def next
    (c : Chronicle)
    (op : Operation) : Chronicle :=
  let r := c.session.perform op
  let calls := op.served c.session
  match op.opens? with
  | some env =>
      { session := r.session
        environment := some env
        calls := calls
        events := r.events }
  | none =>
      { c with
        session := r.session
        calls := c.calls ++ calls
        events := c.events ++ r.events }

/- The chronicle of operations on a new session. -/
def after
    (ops : List Operation) : Chronicle :=
  ops.foldl next {}

/- The batches that were compiled into a partition. -/
def batches
    (c : Chronicle)
    (scope : Option Nat) : List (List String) :=
  (c.calls.filter (fun call => call.scope = scope)).map Call.tokens

/- What was announced for a partition. -/
def notices
    (c : Chronicle)
    (scope : Option Nat) : List Appended :=
  (c.events.filterMap Event.appended?).filter
    (fun a => a.scope = scope)

/- A chronicle speaks of the session that performs its operations. -/
theorem session_after
    (ops : List Operation) :
    (after ops).session = (Session.new.performAll ops).1 := by
  have hFold :
      ∀ (ops : List Operation) (c : Chronicle),
        (ops.foldl next c).session =
          (c.session.performAll ops).1 := by
    intro ops
    induction ops with
    | nil => exact fun c => rfl
    | cons op ops ih =>
        intro c
        have hNext :
            (c.next op).session = (c.session.perform op).session := by
          unfold next
          cases op.opens? <;> rfl
        rw [List.foldl_cons, ih, hNext]
        rfl
  exact hFold ops {}

------------------------------------------------------------
-- Steps of a history
------------------------------------------------------------

/- The chronicle of a start before its calls are run. -/
def opened
    (c : Chronicle)
    (env : Environment)
    (target : Sheet) : Chronicle where
  session := c.session.activate env target
  environment := some env

/- The chronicle after one more call was run. -/
def run
    (c : Chronicle)
    (call : Call) : Chronicle :=
  { c with
    session := (c.session.run call).session
    calls := c.calls ++ [call].filter c.session.serves
    events := c.events ++ (c.session.run call).events }

/- The chronicle after more calls were run. -/
def runAll
    (c : Chronicle)
    (calls : List Call) : Chronicle :=
  { c with
    session := (c.session.runAll calls).session
    calls := c.calls ++ calls.filter c.session.serves
    events := c.events ++ (c.session.runAll calls).events }

/- A call that is not served leaves no trace. -/
theorem run_of_serves_eq_false
    (c : Chronicle)
    {call : Call}
    (hServes : c.session.serves call = false) :
    c.run call = c := by
  rw [run, c.session.run_of_serves_eq_false call hServes,
    List.filter_cons_of_neg (by simp [hServes])]
  simp only [Reply.done, List.filter_nil, List.append_nil]

theorem runAll_nil
    (c : Chronicle) :
    c.runAll [] = c := by
  simp only [runAll, Session.runAll, Reply.done, List.filter_nil,
    List.append_nil]

theorem runAll_cons
    (c : Chronicle)
    (call : Call)
    (calls : List Call) :
    c.runAll (call :: calls) = (c.run call).runAll calls := by
  have hServes :
      (c.session.run call).session.serves = c.session.serves :=
    funext (c.session.serves_run call)
  unfold runAll run
  rw [Session.runAll_cons, hServes, List.append_assoc,
    ← List.filter_append, List.append_assoc]
  rfl

theorem batches_run
    (c : Chronicle)
    {call : Call}
    (hServes : c.session.serves call = true)
    (scope : Option Nat) :
    (c.run call).batches scope =
      if call.scope = scope then
        c.batches scope ++ [call.tokens]
      else
        c.batches scope := by
  rw [batches, run, List.filter_cons_of_pos hServes,
    List.filter_nil, List.filter_append, List.map_append]
  by_cases hScope : call.scope = scope
  · rw [if_pos hScope, List.filter_cons_of_pos (by simp [hScope])]
    rfl
  · rw [if_neg hScope, List.filter_cons_of_neg (by simp [hScope])]
    exact List.append_nil _

theorem notices_append
    (c : Chronicle)
    (events : List Event)
    (scope : Option Nat) :
    notices { c with events := c.events ++ events } scope =
      c.notices scope ++ Event.noticesFor scope events :=
  Event.noticesFor_append scope c.events events

theorem notices_run
    (c : Chronicle)
    {call : Call}
    {env : Environment}
    {p : Partition}
    (hEnv : c.session.environment? = some env)
    (hPartition : c.session.partition? call.scope = some p)
    (scope : Option Nat) :
    (c.run call).notices scope =
      c.notices scope ++
        if call.scope = scope then
          (env.outcome p.store call.scope.isSome
            call.tokens).emitted.map (Chunk.notice scope)
        else [] := by
  rw [← Event.noticesFor_announced,
    ← c.session.events_run call hEnv hPartition]
  exact c.notices_append _ scope

------------------------------------------------------------
-- Operations as steps
------------------------------------------------------------

variable (c : Chronicle)

/- An operation without calls and events leaves the history. -/
theorem next_of_silent
    {op : Operation}
    (hOpens : op.opens? = none)
    (hServed : op.served c.session = [])
    (hEvents : (c.session.perform op).events = []) :
    c.next op =
      { c with session := (c.session.perform op).session } := by
  unfold next
  dsimp only
  rw [hOpens, hServed, hEvents]
  simp only [List.append_nil]

/- Unless the session waits, an operation that compiles is a run. -/
theorem next_of_call?
    {op : Operation}
    {call : Call}
    (hCall : op.call? = some call)
    (hPhase : c.session.phase ≠ .waiting) :
    c.next op = c.run call := by
  have hPerform := c.session.perform_of_call? hCall
  rw [c.session.compile_of_not_waiting hPhase] at hPerform
  unfold next
  dsimp only
  rw [Operation.opens?_of_call? hCall,
    Operation.served_of_call? _ hCall, hPerform]
  rfl

/- A start that succeeds runs the whitelist and what waited. -/
theorem next_of_opens?
    {o : Setup}
    {env : Environment}
    (hOpens : o.opens? = some env) :
    let ran :=
      (c.opened env o.target).runAll
        (Session.whitelistCalls o.whitelist ++ c.session.pending)
    c.next (.start o) =
      { ran with
        session :=
          ran.session.besides []
            (c.session.initialized.set true)
        events := ran.events ++ [.initialized true] } := by
  intro ran
  have hStart := c.session.start_of_opens? hOpens
  have hServed :
      (Operation.start o).served c.session =
        ([] ++ (Session.whitelistCalls o.whitelist ++
          c.session.pending).filter
            (c.session.activate env o.target).serves) := by
    rw [Operation.served, hOpens]
    rfl
  have hEvents :
      (c.session.perform (.start o)).events =
        (c.session.start o).events :=
    rfl
  have hSession :
      (c.session.perform (.start o)).session =
        (c.session.start o).session :=
    rfl
  unfold next
  dsimp only
  rw [Operation.opens?, hOpens, hServed, hEvents, hSession, hStart]
  dsimp only [ran, runAll, opened]
  rw [Session.runAll_append]
  rfl

end Chronicle

end AtomicCss
