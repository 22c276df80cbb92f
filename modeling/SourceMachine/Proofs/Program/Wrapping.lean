import SourceMachine.Proofs.Program.Sound

/-!
# How deep nodes are nested

On the way down from a node, steps to a core are free, and all others are counted:
`Node.Within k` says that there are fewer than `k` of them, with any number of steps to a core in
between.  What was read is within a bound (`Program.within_of_read`), so a chain of nodes is
made of few runs, and in each run a node is the core of the one before (`Within.exists_runs`).
-/

namespace SourceMachine

namespace Node

/-- On every way down from the node, fewer than `k` steps lead to a part that is not a core. -/
inductive Within : Nat → Node → Prop where
  | intro {k : Nat} {n : Node} (core : ∀ c ∈ n.core?, Within (k + 1) c)
      (others : ∀ c ∈ n.others, Within k c) : Within (k + 1) n

namespace Within

variable {k m : Nat} {n c : Node}

theorem mono (within : n.Within k) (le : k ≤ m) : n.Within m := by
  induction within generalizing m with
  | @intro k n _ _ core others =>
    obtain ⟨m, rfl⟩ : ∃ j, m = j + 1 := ⟨m - 1, by omega⟩
    exact ⟨fun c here => core c here le, fun c here => others c here (by omega)⟩

theorem child (within : n.Within k) (part : c ∈ n.children) : c.Within k := by
  obtain ⟨core, others⟩ := within
  rw [children_eq] at part
  rcases List.mem_append.1 part with here | other
  · exact core c (Option.mem_toList.1 here)
  · exact (others c other).mono (by omega)

/-- A chain of nodes from this one on is a first run and fewer than `k` others, and in each run
    every node is the core of the one before it. -/
theorem exists_runs {chain : List Node} (within : n.Within k)
    (linked : (n :: chain).IsChain fun whole part => part ∈ whole.children) :
    ∃ (run : List Node) (runs : List (List Node)), chain = run ++ runs.flatten ∧
      runs.length < k ∧ ∀ r ∈ (n :: run) :: runs, r.IsChain fun whole part =>
        whole.core? = some part := by
  induction chain generalizing n k with
  | nil =>
    obtain ⟨-, -⟩ := within
    refine ⟨[], [], rfl, Nat.succ_pos _, fun r only => ?_⟩
    rw [List.mem_singleton.1 only]
    exact .singleton n
  | cons c chain ih =>
    obtain ⟨part, linked⟩ := List.isChain_cons_cons.1 linked
    rw [children_eq] at part
    obtain ⟨core, others⟩ := within
    rcases List.mem_append.1 part with here | other
    · -- the run goes on
      have isCore := Option.mem_toList.1 here
      obtain ⟨run, runs, rfl, few, all⟩ := ih (core c isCore) linked
      obtain ⟨first, rest⟩ := List.forall_mem_cons.1 all
      refine ⟨c :: run, runs, rfl, few, List.forall_mem_cons.2 ⟨?_, rest⟩⟩
      exact List.isChain_cons_cons.2 ⟨isCore, first⟩
    · -- a new run starts
      obtain ⟨run, runs, rfl, few, all⟩ := ih (others c other) linked
      refine ⟨[], (c :: run) :: runs, rfl, Nat.succ_lt_succ few, ?_⟩
      exact List.forall_mem_cons.2 ⟨.singleton n, all⟩

end Within

end Node

/-- A sound node is within its bound. -/
theorem Node.IsSound.within {strict : Bool} {k : Nat} {n : Node} (sound : n.IsSound strict k) :
    n.Within k := by
  induction sound with
  | intro _ _ _ _ core others => exact ⟨core, others⟩

/-- A program that was read is within a bound that depends on the allowed nesting alone. -/
theorem Program.within_of_read {text : String} {p : Program}
    (accepted : Program.read text = .ok p) : (Node.program p).Within (10 * maxNesting + 1) :=
  (Program.sound_of_read accepted).within

end SourceMachine
