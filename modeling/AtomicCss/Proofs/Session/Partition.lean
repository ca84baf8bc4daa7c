import AtomicCss.Proofs.Batch.Emission
import AtomicCss.Proofs.Sheet

/-
  This file proves what a partition holds after batches were
  compiled into it one after another.

  Key definitions include:
    * `Environment.fill`
    * `Environment.filledFrom`
    * `Environment.filled`
    * `Environment.passes`
    * `Environment.emitted`
    * `Environment.blocks`
    * `Environment.texts`

  The main statements are:
    * `Environment.passes_append_singleton`
    * `Environment.sheet_filled`
    * `Environment.sections_filled`
    * `Environment.get?_sheet_filled`
-/

namespace AtomicCss

namespace Environment

variable (env : Environment) (hosted : Bool)

/- A partition after one more batch. -/
def fill
    (p : Partition)
    (tokens : List String) : Partition where
  sheet :=
    p.sheet.appendAll env.cascade
      (env.outcome p.store hosted tokens).emitted
  store := env.storeAfter p.store hosted tokens

/- A partition after batches that began with a sheet. -/
def filledFrom
    (base : Sheet)
    (batches : List (List String)) : Partition :=
  batches.foldl (env.fill hosted) { sheet := base }

/- A fresh partition after batches. -/
def filled
    (batches : List (List String)) : Partition :=
  batches.foldl (env.fill hosted) {}

/- The rules that are new to a store in each of several batches. -/
def passesFrom : RuleStore → List (List String) → List (List Rule)
  | _, [] => []
  | store, tokens :: rest =>
      env.newRules store hosted tokens ::
        passesFrom (env.storeAfter store hosted tokens) rest

/- The rules that are new to a fresh partition, batch by batch. -/
def passes
    (batches : List (List String)) : List (List Rule) :=
  env.passesFrom hosted .empty batches

/- The chunks that batches add to a fresh partition. -/
def emitted
    (batches : List (List String)) : List Chunk :=
  (env.passes hosted batches).flatMap env.emissions

theorem filled_append_singleton
    (batches : List (List String))
    (tokens : List String) :
    env.filled hosted (batches ++ [tokens]) =
      env.fill hosted (env.filled hosted batches) tokens :=
  List.foldl_append

theorem filledFrom_append_singleton
    (base : Sheet)
    (batches : List (List String))
    (tokens : List String) :
    env.filledFrom hosted base (batches ++ [tokens]) =
      env.fill hosted (env.filledFrom hosted base batches)
        tokens :=
  List.foldl_append

/- What a store has seen does not depend on the sheet. -/
theorem store_filledFrom
    (base : Sheet)
    (batches : List (List String)) :
    (env.filledFrom hosted base batches).store =
      (env.filled hosted batches).store := by
  induction batches using List.reverseRecOn with
  | nil => rfl
  | append_singleton batches tokens ih =>
      rw [filledFrom_append_singleton, filled_append_singleton,
        fill, fill, ih]

/- What is new in a batch depends on all batches before it. -/
theorem passes_append_singleton
    (batches : List (List String))
    (tokens : List String) :
    env.passes hosted (batches ++ [tokens]) =
      env.passes hosted batches ++
        [env.newRules (env.filled hosted batches).store
          hosted tokens] := by
  have hFrom :
      ∀ p : Partition,
        env.passesFrom hosted p.store (batches ++ [tokens]) =
          env.passesFrom hosted p.store batches ++
            [env.newRules
              (batches.foldl (env.fill hosted) p).store
                hosted tokens] := by
    induction batches with
    | nil => exact fun p => rfl
    | cons first rest ih =>
        intro p
        exact congrArg _ (ih (env.fill hosted p first))
  exact hFrom {}

theorem emitted_append_singleton
    (batches : List (List String))
    (tokens : List String) :
    env.emitted hosted (batches ++ [tokens]) =
      env.emitted hosted batches ++
        (env.outcome (env.filled hosted batches).store
          hosted tokens).emitted := by
  rw [emitted, passes_append_singleton, List.flatMap_append]
  exact congrArg _ (List.append_nil _)

/- Chunks belong to breakpoints of the cascade. -/
theorem breakpoint_mem_of_mem_emitted
    {batches : List (List String)}
    {c : Chunk}
    (hChunk : c ∈ env.emitted hosted batches) :
    c.breakpoint ∈ env.cascade.breakpoints := by
  induction batches using List.reverseRecOn with
  | nil => cases hChunk
  | append_singleton batches tokens ih =>
      rw [emitted_append_singleton] at hChunk
      rcases List.mem_append.1 hChunk with hEarlier | hLast
      · exact ih hEarlier
      · rcases List.mem_map.1 hLast with ⟨b, hb, rfl⟩
        exact (List.mem_filter.1 hb).1

/- A sheet is all that was added to it, and nothing else. -/
theorem sheet_filled
    (batches : List (List String)) :
    (env.filled hosted batches).sheet =
      (∅ : Sheet).appendAll env.cascade
        (env.emitted hosted batches) := by
  induction batches using List.reverseRecOn with
  | nil => rfl
  | append_singleton batches tokens ih =>
      rw [filled_append_singleton, emitted_append_singleton,
        Sheet.appendAll_append, ← ih]
      rfl

theorem sections_filled
    (batches : List (List String)) :
    (env.filled hosted batches).sheet.sections =
      Section.ofTexts
        (fun b =>
          Text.joined?
            (Chunk.textsAt (env.emitted hosted batches) b.name))
        env.cascade.breakpoints := by
  rw [sheet_filled]
  exact Sheet.sections_appendAll
    (fun _ hChunk => env.breakpoint_mem_of_mem_emitted hosted hChunk)

------------------------------------------------------------
-- Sheets as blocks
------------------------------------------------------------

/- The blocks that batches append at a breakpoint, in order. -/
def blocks
    (batches : List (List String))
    (name : String) : List (String × Declarations) :=
  (env.passes hosted batches).flatMap
    (fun new => Rule.blocksAt new name)

/- The texts of those blocks, one for each batch that has any. -/
def texts
    (batches : List (List String))
    (b : Breakpoint) : List String :=
  (((env.passes hosted batches).map
    (fun new => Rule.blocksAt new b.name)).filter
      (fun shown => !shown.isEmpty)).map
        (fun shown =>
          Render.wrap b
            (String.join (shown.map (Render.block env.extensions))))

/- A pass has one text at a breakpoint where it has blocks. -/
theorem textsAt_emissions
    (new : List Rule)
    {b : Breakpoint}
    (hMem : b ∈ env.cascade.breakpoints) :
    Chunk.textsAt (env.emissions new) b.name =
      if b.name ∈ new.map Rule.breakpoint then
        [Render.wrap b (env.bodyAt new b.name)]
      else
        [] := by
  have hOwn :
      (env.cascade.breakpoints.filter
        (fun a => a.name ∈ new.map Rule.breakpoint)).filter
          (fun a => a.name = b.name) =
        if b.name ∈ new.map Rule.breakpoint then [b] else [] := by
    rw [List.filter_comm, Cascade.filter_name hMem]
    split
    · rename_i hName
      exact List.filter_cons_of_pos (decide_eq_true hName)
    · rename_i hName
      exact List.filter_cons_of_neg (by simpa using hName)
  rw [Chunk.textsAt, emissions, List.filter_map, List.map_map]
  refine (congrArg _ hOwn).trans ?_
  split <;> rfl

/- The texts of a partition at a breakpoint are those of its blocks. -/
theorem textsAt_emitted
    (batches : List (List String))
    {b : Breakpoint}
    (hMem : b ∈ env.cascade.breakpoints) :
    Chunk.textsAt (env.emitted hosted batches) b.name =
      env.texts hosted batches b := by
  unfold emitted texts
  induction env.passes hosted batches with
  | nil => rfl
  | cons new rest ih =>
      have hAppend :
          Chunk.textsAt
              ((new :: rest).flatMap env.emissions) b.name =
            Chunk.textsAt (env.emissions new) b.name ++
              Chunk.textsAt
                (rest.flatMap env.emissions) b.name := by
        rw [Chunk.textsAt, List.flatMap_cons, List.filter_append,
          List.map_append]
        rfl
      rw [hAppend, ih, env.textsAt_emissions new hMem,
        List.map_cons]
      have hNil := Rule.blocksAt_eq_nil_iff new b.name
      by_cases hName : b.name ∈ new.map Rule.breakpoint
      · have hBlocks : Rule.blocksAt new b.name ≠ [] :=
          fun h => hNil.1 h hName
        rw [if_pos hName, List.filter_cons_of_pos (by simpa using hBlocks),
          List.map_cons, bodyAt_eq_join_block]
        rfl
      · rw [if_neg hName,
          List.filter_cons_of_neg (by simp [hNil.2 hName])]
        rfl

/- So the sheet of a partition may be read as its blocks. -/
theorem get?_sheet_filled
    (batches : List (List String))
    {b : Breakpoint}
    (hMem : b ∈ env.cascade.breakpoints) :
    (env.filled hosted batches).sheet.get? b.name =
      Text.joined? (env.texts hosted batches b) := by
  rw [Sheet.get?_of_sections (env.sections_filled hosted batches)
    hMem, env.textsAt_emitted hosted batches hMem]

end Environment

end AtomicCss
