import Mathlib

/-!
# Programs that run side by side

Programs are lists of effects. They are started one after the other, and at any time any program
that has something left may perform its next effect. The log tells who did what in which order. In
every schedule the log, restricted to one program, is what that program has performed so far, and
once nothing is left the log is a rearrangement of all programs.
-/

namespace VertexGateway.Interleaving

variable {ε : Type*}

/-- What each program has left to do, and what has been done, tagged by program. -/
structure Pool (ε : Type*) where
  pending : List (List ε)
  log : List (ℕ × ε)

def Pool.empty : Pool ε := ⟨[], []⟩

inductive Action (ε : Type*) where
  | start (program : List ε)
  | advance (index : ℕ)

def step (pool : Pool ε) : Action ε → Option (Pool ε)
  | .start program => some { pool with pending := pool.pending ++ [program] }
  | .advance index =>
    match pool.pending[index]? with
    | some (effect :: rest) => some ⟨pool.pending.set index rest, pool.log ++ [(index, effect)]⟩
    | _ => none

def exec : List (Action ε) → Pool ε → Option (Pool ε)
  | [], pool => some pool
  | action :: actions, pool => (step pool action).bind (exec actions)

/-- The program an action starts. -/
def Action.program? : Action ε → Option (List ε)
  | .start program => some program
  | .advance _ => none

/-- What one program has done. -/
def done (log : List (ℕ × ε)) (index : ℕ) : List ε :=
  (log.filter fun entry ↦ entry.1 = index).map Prod.snd

@[simp]
theorem done_nil (index : ℕ) : done ([] : List (ℕ × ε)) index = [] := rfl

@[simp]
theorem done_append (first second : List (ℕ × ε)) (index : ℕ) :
    done (first ++ second) index = done first index ++ done second index := by
  simp [done]

@[simp]
theorem done_singleton (tag index : ℕ) (effect : ε) :
    done [(tag, effect)] index = if tag = index then [effect] else [] := by
  by_cases h : tag = index <;> simp [done, h]

theorem mem_done_iff (log : List (ℕ × ε)) (index : ℕ) (effect : ε) :
    effect ∈ done log index ↔ (index, effect) ∈ log := by
  simp [done]

/-- Every program is what it has done followed by what it has left, and only started programs have
done anything. -/
structure Splits (programs : List (List ε)) (pool : Pool ε) : Prop where
  programs_eq : programs = pool.pending.mapIdx fun index rest ↦ done pool.log index ++ rest
  started : ∀ entry ∈ pool.log, entry.1 < pool.pending.length

theorem splits_empty : Splits [] (.empty : Pool ε) :=
  ⟨rfl, fun _ hentry ↦ absurd hentry List.not_mem_nil⟩

theorem done_of_length_le {log : List (ℕ × ε)} {bound index : ℕ}
    (h : ∀ entry ∈ log, entry.1 < bound) (hindex : bound ≤ index) : done log index = [] := by
  unfold done
  rw [List.map_eq_nil_iff, List.filter_eq_nil_iff]
  intro entry hentry hsame
  have hlt := h entry hentry
  rw [of_decide_eq_true hsame] at hlt
  omega

theorem Splits.start {programs : List (List ε)} {pool : Pool ε} (h : Splits programs pool)
    (program : List ε) :
    Splits (programs ++ [program]) { pool with pending := pool.pending ++ [program] } where
  programs_eq := by
    have hnew : done pool.log pool.pending.length = [] := done_of_length_le h.started le_rfl
    simp [List.mapIdx_append, hnew, h.programs_eq]
  started entry hentry := by
    have hlt := h.started entry hentry
    simp only [List.length_append, List.length_singleton]
    omega

/-- An effect moves from what its program has left to what it has done. -/
theorem Splits.advance {programs : List (List ε)} {pool : Pool ε} (h : Splits programs pool)
    {index : ℕ} {effect : ε} {rest : List ε} (hpending : pool.pending[index]? = some (effect :: rest)) :
    Splits programs ⟨pool.pending.set index rest, pool.log ++ [(index, effect)]⟩ := by
  obtain ⟨hindex, hhead⟩ := List.getElem?_eq_some_iff.mp hpending
  refine ⟨?_, ?_⟩
  · rw [h.programs_eq]
    apply List.ext_getElem (by simp)
    intro position hposition _
    simp only [List.getElem_mapIdx, List.getElem_set, done_append, done_singleton]
    split
    · next heq =>
      subst heq
      simp [hhead]
    · simp
  · intro entry hentry
    simp only [List.length_set]
    rcases List.mem_append.mp hentry with hold | hnew
    · exact h.started entry hold
    · rw [List.mem_singleton.mp hnew]
      exact hindex

theorem Splits.step {programs : List (List ε)} {pool next : Pool ε} {action : Action ε}
    (h : Splits programs pool) (hstep : Interleaving.step pool action = some next) :
    Splits (programs ++ action.program?.toList) next := by
  cases action with
  | start program =>
    obtain rfl := Option.some.inj hstep
    exact h.start program
  | advance index =>
    rw [Interleaving.step] at hstep
    split at hstep
    · next effect rest hpending =>
      obtain rfl := Option.some.inj hstep
      rw [Action.program?, Option.toList_none, List.append_nil]
      exact h.advance hpending
    · exact absurd hstep.symm (Option.some_ne_none next)

/-- In every schedule each program has done a first part of itself and has the rest left. -/
theorem splits_of_exec {actions : List (Action ε)} {pool : Pool ε}
    (h : exec actions .empty = some pool) : Splits (actions.filterMap Action.program?) pool := by
  suffices hrun : ∀ (programs : List (List ε)) (start : Pool ε), Splits programs start →
      exec actions start = some pool → Splits (programs ++ actions.filterMap Action.program?) pool by
    simpa using hrun [] .empty splits_empty h
  clear h
  induction actions with
  | nil =>
    intro programs start hstart hexec
    obtain rfl := Option.some.inj hexec
    simpa using hstart
  | cons action actions ih =>
    intro programs start hstart hexec
    obtain ⟨next, hstep, hrest⟩ := Option.bind_eq_some_iff.mp hexec
    have hall := ih _ next (hstart.step hstep) hrest
    rw [List.append_assoc] at hall
    cases hprogram : action.program? with
    | none => simpa [hprogram] using hall
    | some program => simpa [hprogram] using hall

/-! ## What the log says -/

section Log

variable {programs : List (List ε)} {pool : Pool ε}

theorem Splits.done_prefix (h : Splits programs pool) {index : ℕ} {program : List ε}
    (hprogram : programs[index]? = some program) : done pool.log index <+: program := by
  rw [h.programs_eq, List.getElem?_mapIdx, Option.map_eq_some_iff] at hprogram
  obtain ⟨rest, -, rfl⟩ := hprogram
  exact List.prefix_append _ _

/-- What is logged was started and is part of its program. -/
theorem Splits.exists_program (h : Splits programs pool) {index : ℕ} {effect : ε}
    (hentry : (index, effect) ∈ pool.log) :
    ∃ program, programs[index]? = some program ∧ effect ∈ program := by
  have hindex : index < programs.length := by
    rw [h.programs_eq, List.length_mapIdx]
    exact h.started _ hentry
  refine ⟨programs[index], List.getElem?_eq_getElem hindex, ?_⟩
  exact (h.done_prefix (List.getElem?_eq_getElem hindex)).subset
    ((mem_done_iff _ _ _).mpr hentry)

/-- Inserting one effect into one of several lists inserts it into their concatenation. -/
theorem flatMap_insert_perm {indices : List ℕ} (hnodup : indices.Nodup) {index : ℕ}
    (hindex : index ∈ indices) (effect : ε) (rest : ℕ → List ε) :
    (indices.flatMap fun position ↦ if index = position then effect :: rest position
      else rest position).Perm (effect :: indices.flatMap rest) := by
  induction indices with
  | nil => exact absurd hindex List.not_mem_nil
  | cons head indices ih =>
    obtain ⟨hhead, htail⟩ := List.nodup_cons.mp hnodup
    rw [List.flatMap_cons, List.flatMap_cons]
    by_cases heq : index = head
    · subst heq
      have hsame : (indices.flatMap fun position ↦ if index = position then effect :: rest position
          else rest position) = indices.flatMap rest := by
        apply List.flatMap_congr
        intro position hposition
        have hne : index ≠ position := by
          rintro rfl
          exact hhead hposition
        rw [if_neg hne]
      rw [if_pos rfl, hsame, List.cons_append]
    · have hmem := (List.mem_cons.mp hindex).resolve_left heq
      rw [if_neg heq]
      exact ((ih htail hmem).append_left (rest head)).trans List.perm_middle

/-- The log is a rearrangement of what the programs have done. -/
theorem flatMap_done_perm {log : List (ℕ × ε)} {bound : ℕ} (h : ∀ entry ∈ log, entry.1 < bound) :
    ((List.range bound).flatMap (done log)).Perm (log.map Prod.snd) := by
  induction log with
  | nil => simp
  | cons entry log ih =>
    obtain ⟨hentry, hlog⟩ := List.forall_mem_cons.mp h
    have hdone : done (entry :: log) = fun index ↦
        if entry.1 = index then entry.2 :: done log index else done log index := by
      funext index
      by_cases heq : entry.1 = index <;> simp [done, heq]
    rw [hdone, List.map_cons]
    exact (flatMap_insert_perm List.nodup_range (List.mem_range.mpr hentry) entry.2 (done log)).trans
      ((ih hlog).cons entry.2)

/-- Once nothing is left to do, the log is a rearrangement of all programs. -/
theorem Splits.log_perm_of_rest (h : Splits programs pool)
    (hrest : ∀ rest ∈ pool.pending, rest = []) :
    (pool.log.map Prod.snd).Perm programs.flatten := by
  have hprograms : programs = (List.range pool.pending.length).map (done pool.log) := by
    rw [h.programs_eq]
    apply List.ext_getElem (by simp)
    intro index hindex _
    rw [List.length_mapIdx] at hindex
    have hnil : pool.pending[index] = [] := hrest _ (List.getElem_mem hindex)
    simp [hnil]
  rw [hprograms, ← List.flatMap_def]
  exact (flatMap_done_perm h.started).symm

end Log

end VertexGateway.Interleaving
