import SourceMachine.Proofs.Machine.Scheduling
import SourceMachine.Proofs.Session.Calls

/-!
# Threads that take turns

A program spawns some threads, each of which displays some strings with a call of `yld` between
one and the next, then starts them and returns a value.  There is a row of strings for each
thread.  Evaluated on a new machine, the program displays the strings of the rows column by
column, and comes to the value (`threads_take_turns`).

The threads are spawned one by one, and all that each of them adds is a place at the end of the
queue (`Queued.spawn`, `Queued.spawns_all`).
-/

namespace SourceMachine

open Config Heap Sketch

namespace Threads

/-! ## The program -/

/-- Statements that spawn a thread for each row. -/
def spawnsOf (plan : List (List String)) : List Stmt :=
  plan.map fun labels => run (Sketch.call "spawn" [.function (arrow [] (procedure labels))])

/-- Statements that start the threads and return a value. -/
abbrev startsAndReturns (value : Literal) : List Stmt :=
  [run (Sketch.call "start_threads" []), returns (.literal value {})]

/-- The function that spawns the threads, starts them and returns a value. -/
def director (plan : List (List String)) (value : Literal) : Function :=
  arrow ["spawn", "start_threads", "yld"] (spawnsOf plan ++ startsAndReturns value)

/-- The program: a call of `threads` with such a function. -/
def program (plan : List (List String)) (value : Literal) : List Stmt :=
  [run (Sketch.call "threads" [.function (director plan value)])]

theorem declaredNames_spawnsOf (plan : List (List String)) (value : Literal) :
    declaredNames (spawnsOf plan ++ startsAndReturns value) = [] := by
  induction plan with
  | nil => rfl
  | cons labels plan ih => exact ih

theorem length_spawnsOf (plan : List (List String)) (value : Literal) :
    (spawnsOf plan ++ startsAndReturns value).length = plan.length + 2 := by
  rw [List.length_append, spawnsOf, List.length_map]
  rfl

variable {t : Threads} {limit tall : Nat} {goal : Config → Prop} {w : World} {h h' : Heap}
  {stack : Stack} {queue halt : Value} {around base : Env} {threads : List Thread}
  {labels : List String} {plan : List (List String)} {k : ContinuationId} {value : Literal}

/-! ## Spawning the threads -/

/-- The slots of the scopes that the threads are spawned in. -/
abbrev directorSlots (t : Threads) (k : ContinuationId) : List (Named Slot) :=
  [[], Named.called ["spawn", "start_threads", "yld"]
    [.closure t.spawn, .closure t.start, .closure t.pause] k, []]

/-- A change of the queue leaves scopes alone that it is not in. -/
theorem Stands.apart_of_free (stands : t.Stands h queue halt) (free : t.block ∉ around) :
    ∀ id ∈ around ++ t.base, id ∉ [t.block] := by
  intro id member same
  obtain rfl := List.mem_singleton.1 same
  exact (List.mem_append.1 member).elim free fun far =>
    stands.block_not_mem _ far List.mem_cons_self

section

variable (queued : t.Queued limit tall h queue halt threads)
  (sees : h.Sees around (t.directorSlots k) t.base) (free : t.block ∉ around)
  (apart : ∀ th ∈ threads, th.cell ∉ around)

include queued sees free apart

/-- A thread is spawned, and waits at the end of the queue. -/
theorem Queued.spawn (space : stack.depth + (2 * labels.length + tall + 1) ≤ limit)
    (enough : 2 * threads.length + 4 ≤ tall)
    (onwards : ∀ h' queue' env' th, Grows [t.block] h h' → th.labels = labels →
      h.scopes.size ≤ th.cell.index → t.Queued limit tall h' queue' halt (threads ++ [th]) →
      From limit goal w h' (.value .undefined) env' stack)
    : From limit goal w h
      (.statement (run (Sketch.call "spawn" [.function (arrow [] (procedure labels))])))
      (around ++ t.base) stack := by
  have made := Grows.newClosure h ⟨arrow [] (procedure labels), around ++ t.base⟩
  refine .runs (by omega) (.call 0 (.sight sees rfl) (.cons (.function _) .nil) (by omega) ?_)
  refine (queued.stands.grown made).spawns (queued.list.grows made)
    (by rw [List.length_map]; omega) ?_
  intro h₁ queue' env' cell call k home grows₁ fresh stands₁ list₁ captures
  have grows : Grows [t.block] h h₁ := made.trans grows₁
  have fresh : ∀ id ∈ [cell, call], h.scopes.size ≤ id.index := fun id member =>
    made.size.trans (fresh id member)
  have outside := queued.stands.apart_of_free free
  have old {id : ScopeId} (member : id ∈ around ++ t.base) : id ∉ [cell, call] := fun near =>
    (sees.inside member).not_ge (fresh id near)
  have closure : h₁.closure? ⟨h.closures.size⟩ =
      some ⟨arrow [] (procedure labels), around ++ t.base⟩ :=
    grows₁.lasts.closures Array.getElem?_push_size
  have waits := captures.waits_of_spawning rfl rfl closure (sees.grows grows outside) free
    (fun member => old (List.mem_append_left _ member) (by simp))
    (fun member => outside _ (List.mem_append_right _ member) (by simp)) space (by omega)
  refine onwards h₁ queue' env' ⟨k, cell, cell :: call :: (around ++ t.base), labels⟩ grows rfl
    (fresh cell (by simp)) (.concat stands₁ list₁
      (fun th member => (queued.waits th member).requeued grows) waits queued.apart ?_)
  intro th member
  have waiting := queued.waits th member
  refine waiting.apart_of_fresh fresh (fun here => ?_) k labels
  exact (List.mem_append.1 here).elim (apart th member) fun far =>
    waiting.apart (List.mem_append_right _ far)

/-- All threads are spawned, and wait in this order. -/
theorem Queued.spawns_all {longest : Nat} (short : ∀ labels ∈ plan, labels.length ≤ longest)
    (space : stack.depth + (plan.length + 2 * longest + tall + 3) ≤ limit)
    (enough : 2 * (threads.length + plan.length) + 4 ≤ tall)
    (onwards : ∀ h' queue' threads', Grows [t.block] h h' → threads'.map Thread.labels = plan →
      (∀ th ∈ threads', h.scopes.size ≤ th.cell.index) →
      t.Queued limit tall h' queue' halt (threads ++ threads') →
      From limit goal w h' (.ofBody (startsAndReturns value)) (around ++ t.base)
      (stack.pushAll (around ++ t.base) (startsAndReturns value).tail)) :
    From limit goal w h (.ofBody (spawnsOf plan ++ startsAndReturns value)) (around ++ t.base)
      (stack.pushAll (around ++ t.base) (spawnsOf plan ++ startsAndReturns value).tail) := by
  induction plan generalizing h queue threads with
  | nil =>
    refine onwards h queue [] (.refl h) rfl (by simp) ?_
    rw [List.append_nil]
    exact queued
  | cons labels plan ih =>
    rw [List.forall_mem_cons] at short
    rw [List.length_cons] at space enough
    have length := length_spawnsOf plan value
    refine queued.spawn sees free apart ?_ (by omega) ?_
    · show (stack.pushAll _ (spawnsOf plan ++ startsAndReturns value)).depth + _ ≤ limit
      rw [Stack.depth_pushAll, length]
      omega
    intro h₁ queue' env' th grows₁ same fresh queued₁
    have outside := queued.stands.apart_of_free free
    show Attains limit goal
      ⟨_, _, stack.pushAll _ (spawnsOf plan ++ startsAndReturns value), _⟩
    refine .rest (by simp) (by rw [length]; omega) (ih queued₁ (sees.grows grows₁ outside) ?_
      short.2 (by omega) (by rw [List.length_append, List.length_singleton]; omega) ?_)
    · intro other member
      rcases List.mem_append.1 member with there | same
      · exact apart other there
      · obtain rfl := List.mem_singleton.1 same
        exact fun near => (sees.inside (List.mem_append_left _ near)).not_ge fresh
    · intro h₂ queue₂ others grows₂ labels₂ fresh₂ queued₂
      refine onwards h₂ queue₂ (th :: others) ((grows₁.trans grows₂).mono (by simp))
        (by rw [List.map_cons, same, labels₂]) ?_ (by simpa using queued₂)
      exact List.forall_mem_cons.2 ⟨fresh, fun other member =>
        grows₁.size.trans (fresh₂ other member)⟩

end

/-! ## Running the program -/

/-- The program writes the strings column by column, and comes to its value. -/
theorem takes_turns (plan : List (List String)) (value : Literal) {scope : ScopeId}
    (sees : h.Sees [scope] [[]] base) (equips : h.Equips base)
    {longest : Nat} (short : ∀ labels ∈ plan, labels.length ≤ longest)
    (space : 3 * plan.length + 2 * longest + 11 ≤ limit) : Attains limit
      (Ends fun v w' => v = value.value ∧ w'.console = (w.wrote (byColumn plan)).console)
      ⟨.ofBody (program plan value), [scope] ++ base, Stack.initial, w.withHeap h⟩ := by
  have depth : Stack.initial.depth = 1 := rfl
  obtain ⟨_, f, named, found, closure⟩ := equips.jumps Prelude.threads (by simp)
  cases named
  have found : h.get ⟨"threads", {}⟩ ([scope] ++ base) = .ok (.closure f) :=
    (get_of_seek_none sees.shown rfl).trans found
  have made := Grows.newClosure h ⟨director plan value, [scope] ++ base⟩
  refine .runs (by omega) (.call 0 (.name found) (.cons (.function _) .nil) (by omega)
    (Threads.threads (made.lasts.closures closure) (equips.grown made) (by omega) ?_))
  intro h₁ t grows₁ same fresh₁ stands home
  subst same
  have until₁ := made.trans grows₁
  have body : h₁.closure? ⟨h.closures.size⟩ = some ⟨director plan value, [scope] ++ t.base⟩ :=
    grows₁.lasts.closures Array.getElem?_push_size
  have declared := declaredNames_spawnsOf plan value
  have length := length_spawnsOf plan value
  refine .enter ["spawn", "start_threads", "yld"] body rfl rfl rfl
    (by show (declaredNames (spawnsOf plan ++ _)).Nodup; rw [declared]; exact List.nodup_nil)
    (sees.grown until₁)
    (by show 1 + 1 + (spawnsOf plan ++ _).length ≤ limit; rw [length]; omega) ?_
  intro h₂ outer inner k grows₂ fresh fresh' sees₂ back
  have sees₂ : h₂.Sees [inner, outer, scope] (t.directorSlots k) t.base := by
    have sees₂ : h₂.Sees [inner, outer, scope] (Named.declared
      (declaredNames (spawnsOf plan ++ startsAndReturns value)) :: _) t.base := sees₂
    rw [declared] at sees₂
    exact sees₂
  -- the scope of the queue was made after that of the program and before those of the body
  have free : t.block ∉ [inner, outer, scope] := by
    have old : t.block.index < h₁.scopes.size := stands.sees.head.inside
    have new : h.scopes.size ≤ t.block.index := fresh₁ t.block (by simp)
    have inside : scope.index < h.scopes.size := sees.head.inside
    simp only [List.mem_cons, List.not_mem_nil, or_false, not_or]
    refine ⟨?_, ?_, ?_⟩ <;> rintro rfl <;> omega
  have queued : t.Queued limit (2 * plan.length + 6) h₂ .null .null [] :=
    ⟨stands.grown grows₂, .nil, by simp, .nil⟩
  refine queued.spawns_all sees₂ free (by simp) short
    (by show 1 + 1 + _ ≤ limit; omega) (by rw [List.length_nil]; omega) ?_
  intro h₃ queue' threads grows₃ labels₃ fresh₃ queued₃
  have count : threads.length = plan.length := by rw [← labels₃, List.length_map]
  have sees₃ := sees₂.grows grows₃ (queued.stands.apart_of_free free)
  refine .runs (by show 1 + 1 + 1 ≤ limit; omega) (.call 0 (.sight sees₃ rfl) .nil
    (by show 1 + 1 + 1 + 1 ≤ limit; omega) (queued₃.starts (by show 1 + 1 + 1 + 4 ≤ limit; omega)
      (by rw [List.nil_append, count]) ?_))
  intro h₄ env₄ grows₄
  rw [List.nil_append] at grows₄
  rw [List.nil_append, labels₃]
  -- neither the queue nor a thread has touched the scopes that the threads were spawned in
  have sees₄ := sees₃.grows grows₄ fun id member touched => by
    rcases List.mem_cons.1 touched with same | touched
    · exact queued.stands.apart_of_free free id member (by simp [same])
    · obtain ⟨th, there, rfl⟩ := List.mem_map.1 touched
      exact (sees₂.inside member).not_ge (fresh₃ th there)
  have later := grows₃.trans grows₄
  refine .next (by show 1 + 1 ≤ limit; omega) (.returns 0 (.literal value) (sees₄.lookup? rfl)
    (later.lasts.continuations back) (by show 1 + 1 + 1 ≤ limit; omega)
    (by show 1 + 1 ≤ limit; omega) ?_)
  exact .returned ((grows₂.trans later).lasts.continuations home) (by omega) (by omega)
    (.here ⟨_, rfl, rfl, rfl, rfl⟩)

/-! ## A text of the program -/

/-- A text of the statements of a thread, word by word. -/
def outlineOf (labels : List String) : List Outline.Stmt :=
  (labels.map fun label => .expression
    (.call (.identifier ⟨"display", by decide, by decide⟩) [.string label])).intersperse
      (.expression (.call (.identifier Outline.yieldName) []))

/-- A text of the statements that spawn the threads and start them, word by word. -/
def directorOutline (plan : List (List String)) (e : Outline.Expr) : List Outline.Stmt :=
  (plan.map fun labels => .expression (.call (.identifier ⟨"spawn", by decide, by decide⟩)
      [.arrow Outline.noParams (outlineOf labels)])) ++
    [.expression (.call (.identifier ⟨"start_threads", by decide, by decide⟩) []), .returnsValue e]

/-- A text of the program, word by word. -/
def outline (plan : List (List String)) (e : Outline.Expr) : List Outline.Stmt :=
  [.expression (.call (.identifier ⟨"threads", by decide, by decide⟩)
    [.arrow ⟨[⟨"spawn", by decide, by decide⟩, ⟨"start_threads", by decide, by decide⟩,
      Outline.yieldName], none, by decide⟩ (directorOutline plan e)])]

theorem trees_outlineOf (labels : List String) :
    Outline.Stmt.trees (outlineOf labels) = procedure labels := by
  induction labels with
  | nil => rfl
  | cons label labels ih =>
    cases labels with
    | nil => rfl
    | cons label' labels =>
      rw [procedure_cons_cons, ← ih]
      rfl

theorem nesting_outlineOf (labels : List String) :
    Outline.Stmt.nestingOfAll (outlineOf labels) ≤ 7 := by
  induction labels with
  | nil => exact Nat.zero_le 7
  | cons label labels ih =>
    cases labels with
    | nil => exact le_rfl
    | cons label' labels => exact max_le le_rfl (max_le (by decide) ih)

/-- A literal is not nested. -/
theorem nesting_of_literal {e : Outline.Expr} (written : e.tree = .literal value {}) :
    e.nesting = 0 := by
  cases e with
  | null | boolean | number | string => rfl
  | binary op left right => cases op <;> cases written
  | _ => cases written

section

variable {e : Outline.Expr} (plan) (written : e.tree = .literal value {})

include plan written

theorem trees_directorOutline :
    Outline.Stmt.trees (directorOutline plan e) = spawnsOf plan ++ startsAndReturns value := by
  induction plan with
  | nil =>
    show [_, Stmt.returns (some e.tree) {}] = _
    rw [written]
    rfl
  | cons labels plan ih =>
    show Stmt.expression (.call _ [.function (arrow [] (Outline.Stmt.trees (outlineOf labels)))]
      _) _ :: Outline.Stmt.trees (directorOutline plan e) = _
    rw [ih, trees_outlineOf]
    rfl

theorem nesting_directorOutline : Outline.Stmt.nestingOfAll (directorOutline plan e) ≤ 16 := by
  rw [directorOutline, Outline.Stmt.nestingOfAll_le_iff]
  simp only [List.mem_append, List.mem_map, List.mem_cons, List.not_mem_nil, or_false]
  rintro s (⟨labels, -, rfl⟩ | rfl | rfl)
  · have inner := nesting_outlineOf labels
    simp only [Outline.Stmt.nesting, Outline.Expr.nesting, Outline.Expr.nestingOfAll]
    omega
  · decide
  · rw [Outline.Stmt.nesting, nesting_of_literal written]
    decide

/-- The program has a text, if its value can be written down. -/
theorem exists_text :
    ∃ text p, Program.read text = .ok p ∧ p.unspanned.body = program plan value := by
  have small : Outline.Stmt.nestingOfAll (outline plan e) ≤ maxNesting := by
    have body := nesting_directorOutline plan written
    simp only [outline, Outline.Stmt.nestingOfAll, Outline.Stmt.nesting, Outline.Expr.nesting,
      Outline.Expr.nestingOfAll, maxNesting]
    omega
  obtain ⟨text, p, read, same⟩ := Outline.exists_program small
  refine ⟨text, p, read, ?_⟩
  rw [same, program, director, ← trees_directorOutline plan written]
  rfl

end

/-! ## Evaluating the program -/

/-- What is written to a console that is not muted is added to its lines. -/
theorem lines_foldl_write {c : Console} (audible : c.isMuted = false) (lines : List String) :
    (lines.foldl Console.write c).lines.toList = c.lines.toList ++ lines := by
  induction lines generalizing c with
  | nil => exact (List.append_nil _).symm
  | cons line lines ih =>
    have wrote : c.write line = ⟨c.lines.push line, false⟩ := by
      rw [Console.write, audible]
      rfl
    rw [List.foldl_cons, wrote, ih rfl, Array.toList_push, List.append_assoc]
    rfl

/-- **Threads take turns.**  There is a row of strings for each thread.  The program calls
    `threads` with a function that spawns the threads in order, starts them and returns a
    value; each thread displays the strings of its row, with one call of `yld` between one and
    the next.

    Such a program has a text, if the value can be written down.  Evaluated as the first program
    after the preludes, and if the stack does not overflow, it comes to that value.  It has then
    displayed every string of every row, once for each place that it has there, ordered by the
    places in the rows and then by the rows.  The stack does not overflow if it has room for
    three frames for each thread, two for each string of the longest row, and eleven more. -/
theorem threads_take_turns {settings : Settings} {table : Table} {world : World} {loaded : Machine}
    (loads : Loads settings table world loaded) (audible : world.console.isMuted = false)
    (plan : List (List String)) (value : Literal) :
    (∀ e : Outline.Expr, e.tree = .literal value {} →
      ∃ text p, Program.read text = .ok p ∧ p.unspanned.body = program plan value) ∧
    ∀ text p, Program.read text = .ok p → p.unspanned.body = program plan value →
      (loaded.load p).HasRoom
        (3 * plan.length + 2 * (plan.map List.length).foldr max 0 + 11) →
      ∃ m', (Machine.new settings table world).eval text none = (.finished value.value, m') ∧
        m'.world.console.lines.toList =
          world.console.lines.toList ++ (byColumn plan).map quoted := by
  refine ⟨fun e written => exists_text plan written, fun text p read written room => ?_⟩
  obtain ⟨h, scope, -, sees, equips, comes⟩ := loads.exists_start (p := p)
    (by rw [written]; exact List.nodup_nil)
    (by rw [written]; exact (by decide : 2 ≤ 16).trans loads.room)
  rw [written] at sees comes
  have attains := takes_turns plan value sees equips (w := loaded.world.unspanned)
    (fun labels member => List.le_max_of_le (List.mem_map_of_mem member) le_rfl) le_rfl
  obtain ⟨count, y, ends, comes⟩ := Machine.exists_comes attains comes
    (room.imp_left fun never deep => never deep.of_unspanned)
  obtain ⟨_, m', ran, rfl, console⟩ := Machine.runToEnd_of_ends comes ends
  refine ⟨m', (loads.eval_eq read none).trans ran, ?_⟩
  have wrote : m'.world.console = ((byColumn plan).map quoted).foldl Console.write world.console :=
    loads.console_eq ▸ console
  rw [wrote, lines_foldl_write audible]

/-- Three threads, the second of which has ended when the others go on. -/
theorem threads_take_turns_three :
    let text := "
      threads((spawn, start_threads, yld) => \x7b
        spawn(() => \x7b display('a1'); yld(); display('a2'); \x7d);
        spawn(() => \x7b display('b1'); \x7d);
        spawn(() => \x7b display('c1'); yld(); display('c2'); yld(); display('c3'); \x7d);
        start_threads();
        return 'done';
      \x7d);"
    ∃ loaded p m', Loads {} Table.standard {} loaded ∧ Program.read text = .ok p ∧
      (loaded.load p).HasRoom 26 ∧
      (Machine.new {} Table.standard {}).eval text none = (.finished (.string "done"), m') ∧
      m'.world.console.lines.toList =
        ["\"a1\"", "\"b1\"", "\"c1\"", "\"a2\"", "\"c2\"", "\"c3\""] := by
  intro text
  obtain ⟨loaded, loads⟩ : ∃ loaded, Loads {} Table.standard {} loaded :=
    Loads.exists_standard rfl rfl (by decide)
  have check : ∃ p ∈ (Program.read text).toOption, Stmt.alikeAll p.body
      (program [["a1", "a2"], ["b1"], ["c1", "c2", "c3"]] (.string "done")) = true := by
    set_option maxRecDepth 8000 in
    rw [Program.read, Scanner.ofText, Prelude.toList_of_eq (rfl : text = String.ofList _)]
    decide +kernel
  obtain ⟨p, read, written⟩ := Program.exists_alike check
  have room : (loaded.load p).HasRoom 26 := by
    refine .inr ?_
    show 26 ≤ loaded.maxDepth
    rw [loads.maxDepth_eq]
    decide
  obtain ⟨m', evaluated, lines⟩ := (threads_take_turns loads rfl
    [["a1", "a2"], ["b1"], ["c1", "c2", "c3"]] (.string "done")).2 text p read written room
  exact ⟨loaded, p, m', loads, read, room, evaluated, lines⟩

end Threads

end SourceMachine
