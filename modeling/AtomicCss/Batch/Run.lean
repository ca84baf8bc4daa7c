import AtomicCss.Batch.Render
import AtomicCss.Declarations.Layers
import AtomicCss.Selector.Build
import AtomicCss.Token.Reader

/-
  This file defines compiling a batch of tokens: settling
  them, storing their rules and rendering the new ones.

  Key definitions include:
    * `Environment`
    * `Rule`
    * `Environment.rule?`
    * `Tally`
    * `Chunk`
    * `Outcome`
    * `Pass`
    * `Environment.step`
    * `Environment.chunks`
    * `Environment.run`
-/

namespace AtomicCss

------------------------------------------------------------
-- Rules of tokens
------------------------------------------------------------

/- What tokens are compiled against. -/
structure Environment where
  cascade : Cascade
  catalog : Catalog
  extensions : Extensions

/- A selector with declarations, at a breakpoint. -/
structure Rule where
  breakpoint : String
  selector : String
  declarations : Declarations
deriving DecidableEq

/-
  The rule of a token. A text that is no token, or whose
  declarations are empty, has none.
-/
def Environment.rule?
    (env : Environment)
    (hosted : Bool)
    (text : String) : Option Rule := do
  let t ← Token.read? env.cascade env.catalog hosted text
  let u ← env.catalog.utility? t.key
  let d := t.declarations env.catalog u
  if d.isEmpty then
    none
  else
    some ⟨t.breakpoint, Selector.build env.catalog t u, d⟩

------------------------------------------------------------
-- Outcomes
------------------------------------------------------------

/-
  What became of the tokens of a batch: how many there were
  after settling, how many had no rule, a new rule or a known
  one, and how many breakpoints have new text.
-/
structure Tally where
  tokens : Nat := 0
  skipped : Nat := 0
  cached : Nat := 0
  deduplicated : Nat := 0
  rendered : Nat := 0
deriving DecidableEq

/- New text of a breakpoint. -/
structure Chunk where
  breakpoint : Breakpoint
  css : String
deriving DecidableEq

/- The new text of a batch in cascade order, and the tally. -/
structure Outcome where
  emitted : List Chunk := []
  tally : Tally := {}
deriving DecidableEq

/- All new text of a batch. -/
def Outcome.css
    (o : Outcome) : String :=
  String.join (o.emitted.map Chunk.css)

------------------------------------------------------------
-- Compiling
------------------------------------------------------------

/-
  A pass under way: the store, the tally so far, and the names
  of the breakpoints that received a new rule.
-/
structure Pass where
  store : RuleStore
  tally : Tally := {}
  touched : OrderedSet String := ∅
deriving DecidableEq

namespace Environment

/- Store the rule of one token and count what became of it. -/
def step
    (env : Environment)
    (hosted : Bool)
    (pass : Pass)
    (text : String) : Except Error Pass :=
  let tally := pass.tally
  match env.rule? hosted text with
  | none =>
      .ok { pass with
        tally := { tally with skipped := tally.skipped + 1 } }
  | some r => do
      let (new, store) ←
        pass.store.insert r.breakpoint r.selector r.declarations
      if new then
        return {
          store := store
          tally := { tally with cached := tally.cached + 1 }
          touched := pass.touched.insert r.breakpoint () }
      else
        return { pass with
          store := store
          tally :=
            { tally with deduplicated := tally.deduplicated + 1 } }

/- The breakpoints that a pass is rendered for. -/
def rendered
    (env : Environment)
    (touched : OrderedSet String) : List Breakpoint :=
  env.cascade.breakpoints.filter
    (fun b => b.isMinimum || touched.contains b.name)

/- The text of a pass, breakpoint by breakpoint. -/
def chunks
    (env : Environment)
    (pass : Pass) : List Chunk :=
  ((env.rendered pass.touched).map (fun b =>
    ⟨b, Render.breakpoint env.extensions pass.store.working b⟩)).filter
      (fun c => c.css ≠ "")

/- Compile tokens, and give what is new together with the store. -/
def run
    (env : Environment)
    (store : RuleStore)
    (hosted : Bool)
    (tokens : List String) : Except Error (Outcome × RuleStore) := do
  let settled := Token.settle tokens
  let pass ←
    settled.foldlM (env.step hosted)
      { store := store.beginPass, tally := { tokens := settled.length } }
  let emitted := env.chunks pass
  let outcome : Outcome :=
    { emitted := emitted
      tally := { pass.tally with rendered := emitted.length } }
  return (outcome, pass.store)

end Environment

end AtomicCss
