import SourceMachine.Proofs.Heap.Nearest

/-!
# Values that lead to captured stacks

A value names a captured stack by its address, and captured stacks are only ever added.
`IsKnown count` says that a value names none from the address `count` on, and of a heap
that none of its pairs and slots holds such a value.  Operators, and native functions,
make no new names of captured stacks: what they give is known when their operands are.
-/

namespace SourceMachine

variable {v result left right : Value} {args : List Value} {count : Nat} {h' h : Heap} {span : Span}
  {e : Effect} {env : Env} {slot : Slot} {w : World} {α β ε : Type} {x : Except ε α}

/-- The value names no captured stack from an address on. -/
def Value.IsKnown (count : Nat) : Value → Prop
  | .continuation id => id.index < count
  | _ => True

theorem Value.IsKnown.mono {a b : Nat} (known : v.IsKnown a) (le : a ≤ b) : v.IsKnown b := by
  cases v with
  | continuation id => exact lt_of_lt_of_le known le
  | _ => trivial

/-! ## Operators -/

theorem except_map_eq_ok {f : α → β} {b : β} (h : x.map f = .ok b) : ∃ a, x = .ok a ∧ f a = b := by
  cases x with
  | error e => cases h
  | ok a => exact ⟨a, rfl, Except.ok.inj h⟩

theorem Literal.value_isKnown (count : Nat) (l : Literal) : l.value.IsKnown count := by
  cases l <;> trivial

/-- No operator gives a captured stack. -/
theorem UnaryOp.apply_isKnown (count : Nat) {op : UnaryOp}
    (applied : op.apply v span = .ok result) : result.IsKnown count := by
  cases op with
  | typeof => cases applied
  | not | minus | plus =>
    obtain ⟨_, -, rfl⟩ := except_map_eq_ok applied
    trivial

theorem arithmetic_isKnown (count : Nat) {f : Float → Float → Float}
    (applied : arithmetic f left right span = .ok result) : result.IsKnown count := by
  rw [arithmetic] at applied
  split at applied
  · cases applied
  · obtain ⟨_, -, rfl⟩ := except_map_eq_ok applied
    trivial

theorem Comparable.sum_isKnown (count : Nat) (c : Comparable) : c.sum.IsKnown count := by
  cases c <;> trivial

theorem BinaryOp.apply_isKnown (count : Nat) {op : BinaryOp}
    (applied : op.apply left right span = .ok result) : result.IsKnown count := by
  cases op with
  | add =>
    obtain ⟨c, -, rfl⟩ := except_map_eq_ok applied
    exact c.sum_isKnown count
  | lt | le | gt | ge =>
    obtain ⟨_, -, rfl⟩ := except_map_eq_ok applied
    trivial
  | sub | mul | div | rem => exact arithmetic_isKnown count applied
  | strictEq | strictNotEq =>
    cases applied
    trivial
  | looseEq | looseNotEq => cases applied

/-! ## The heap -/

/-- Every value in a pair or a slot of the heap is known. -/
structure Heap.IsKnown (count : Nat) (h : Heap) : Prop where
  pairs : ∀ {id head tail}, h.pair? id = some (head, tail) →
    head.IsKnown count ∧ tail.IsKnown count
  slots : ∀ {id name v isMutable}, h.slot? id name = some (.assigned v isMutable) →
    v.IsKnown count

namespace Heap

namespace IsKnown

variable {count : Nat} {h : Heap}

variable (known : h.IsKnown count)

include known

theorem mono {count' : Nat} (le : count ≤ count') : h.IsKnown count' := by
  refine ⟨fun found => ?_, fun found => (known.slots found).mono le⟩
  obtain ⟨head, tail⟩ := known.pairs found
  exact ⟨head.mono le, tail.mono le⟩

theorem of_eq (pairs : h'.pairs = h.pairs) (scopes : h'.scopes = h.scopes) : h'.IsKnown count := by
  refine ⟨fun found => ?_, fun found => ?_⟩
  · rw [pair?, pairs] at found
    exact known.pairs found
  · rw [slot?, scope?, scopes] at found
    exact known.slots found

theorem bind (id : ScopeId) (name : String)
    (fresh : ∀ v isMutable, slot = .assigned v isMutable → v.IsKnown count) :
    (h.bind id name slot).IsKnown count := by
  refine ⟨known.pairs, fun found => ?_⟩
  rcases slot?_bind_cases found with new | old
  · exact fresh _ _ new.symm
  · exact known.slots old

theorem define (env : Env) (name : String) (value : v.IsKnown count) (isMutable : Bool) :
    (h.define env name v isMutable).IsKnown count := by
  cases env with
  | nil => exact known
  | cons scope _ =>
    refine known.bind _ _ fun v' isMutable' same => ?_
    cases same
    exact value

theorem of_set {id : Identifier} {result : Except Fault Unit} (value : v.IsKnown count)
    (changed : h.set id v env = (result, h')) : h'.IsKnown count := by
  rw [Heap.set] at changed
  split at changed
  · cases changed
    exact known
  · cases changed
    refine known.bind _ _ fun v' isMutable' same => ?_
    cases same
    exact value

theorem of_hoist {body : List Stmt} {result : Except Fault Unit}
    (hoisted : h.hoist env body = (result, h')) : h'.IsKnown count := by
  refine hoist_induction (fun h₁ id name _ _ known₁ => ?_) known hoisted
  exact known₁.bind id name nofun

theorem newScope (label : String) (outer : Env) : (h.newScope label outer).2.IsKnown count := by
  refine ⟨known.pairs, fun {id name v isMutable} found => ?_⟩
  rw [KeepsSlots.newScope h label outer id] at found
  exact known.slots found

theorem newPair {head tail : Value} (hhead : head.IsKnown count) (htail : tail.IsKnown count) :
    (h.newPair head tail).2.IsKnown count := by
  refine ⟨fun {id head' tail'} found => ?_, known.slots⟩
  rw [pair?, Heap.newPair, Array.getElem?_push] at found
  split at found
  · cases found
    exact ⟨hhead, htail⟩
  · exact known.pairs found

/-- A list of known values is known, and so are its pairs. -/
theorem newListOnto {tail : Value} {reversed : List Value} (htail : tail.IsKnown count)
    (values : ∀ v ∈ reversed, v.IsKnown count) :
    (h.newListOnto tail reversed).2.IsKnown count ∧
      (h.newListOnto tail reversed).1.IsKnown count := by
  induction reversed generalizing h tail with
  | nil => exact ⟨known, htail⟩
  | cons v vs ih =>
    have first := known.newPair (values v List.mem_cons_self) htail
    exact ih first trivial fun w member => values w (List.mem_cons_of_mem v member)

theorem newList {values : List Value} (all : ∀ v ∈ values, v.IsKnown count) :
    (h.newList values).2.IsKnown count ∧ (h.newList values).1.IsKnown count :=
  known.newListOnto trivial fun v member => all v (List.mem_reverse.1 member)

theorem setHead (id : PairId) (value : v.IsKnown count) : (h.setHead id v).IsKnown count := by
  refine ⟨fun {id' head tail} found => ?_, known.slots⟩
  rw [pair?, Heap.setHead, Array.getElem?_modify] at found
  split at found
  · obtain ⟨⟨head', tail'⟩, old, same⟩ := Option.map_eq_some_iff.1 found
    cases same
    exact ⟨value, (known.pairs old).2⟩
  · exact known.pairs found

theorem setTail (id : PairId) (value : v.IsKnown count) : (h.setTail id v).IsKnown count := by
  refine ⟨fun {id' head tail} found => ?_, known.slots⟩
  rw [pair?, Heap.setTail, Array.getElem?_modify] at found
  split at found
  · obtain ⟨⟨head', tail'⟩, old, same⟩ := Option.map_eq_some_iff.1 found
    cases same
    exact ⟨(known.pairs old).1, value⟩
  · exact known.pairs found

/-- So is what parameters are bound to, if the arguments are known. -/
theorem bindParams (env : Env) (params : List Param) (all : ∀ v ∈ args, v.IsKnown count) :
    (h.bindParams env params args).IsKnown count := by
  induction params generalizing h args with
  | nil => exact known
  | cons p params ih =>
    rw [Heap.bindParams]
    split
    · obtain ⟨listed, list⟩ := known.newList all
      exact ih (listed.define env p.id.name list true) fun v none => absurd none List.not_mem_nil
    · have first : (args.headD .undefined).IsKnown count := by
        cases args with
        | nil => trivial
        | cons v vs => exact all v List.mem_cons_self
      exact ih (known.define env p.id.name first true)
        fun v member => all v (List.mem_of_mem_tail member)

theorem install {table : Table} (env : Env) (all : ∀ entry ∈ table, entry.2.IsKnown count) :
    (table.install env h).IsKnown count := by
  rw [Table.install]
  induction table generalizing h with
  | nil => exact known
  | cons entry rest ih =>
    have first := known.define env entry.1 (all entry List.mem_cons_self) false
    exact ih first fun later member => all later (List.mem_cons_of_mem entry member)

/-- The value of a name is known. -/
theorem get {id : Identifier} (found : h.get id env = .ok v) : v.IsKnown count := by
  obtain ⟨_, _, nearest⟩ := get_eq_ok_iff.1 found
  exact known.slots nearest.slot?_eq

theorem lookup? {name : String} (found : h.lookup? name env = some v) : v.IsKnown count := by
  induction env with
  | nil => cases found
  | cons scope outer ih =>
    rw [Heap.lookup?] at found
    split at found
    · next slot =>
      cases found
      exact known.slots slot
    · exact ih found
    · exact ih found

end IsKnown

end Heap

/-! ## Native functions -/

/-- Every value that an effect gives or stores is known. -/
def Effect.IsKnown (count : Nat) : Effect → Prop
  | .give v | .write _ v | .setHead _ v | .setTail _ v => v.IsKnown count
  | .makePair head tail => head.IsKnown count ∧ tail.IsKnown count
  | .makeList values => ∀ v ∈ values, v.IsKnown count
  | .draw => True

/-- What a native function gives and stores is known. -/
theorem Effect.IsKnown.perform (effect : e.IsKnown count) (known : w.heap.IsKnown count) :
    (e.perform w).1.IsKnown count ∧ (e.perform w).2.heap.IsKnown count := by
  cases e with
  | give v | write _ v => exact ⟨effect, known⟩
  | makePair head tail => exact ⟨trivial, known.newPair effect.1 effect.2⟩
  | makeList values =>
    obtain ⟨heap, list⟩ := known.newList effect
    exact ⟨list, heap⟩
  | setHead id v => exact ⟨trivial, known.setHead id effect⟩
  | setTail id v => exact ⟨trivial, known.setTail id effect⟩
  | draw => exact ⟨trivial, known⟩

theorem argument_isKnown (all : ∀ v ∈ args, v.IsKnown count) (i : Nat) :
    (argument args i).IsKnown count := by
  rw [argument, List.getD_eq_getElem?_getD]
  cases found : args[i]? with
  | none => trivial
  | some v => exact all v (List.mem_of_getElem? found)

theorem pairArgument_eq_ok {p : PairId × Value × Value} (found : pairArgument h args = .ok p) :
    h.pair? p.1 = some p.2 := by
  rw [pairArgument] at found
  split at found
  · split at found
    · next pair =>
      cases found
      exact pair
    · cases found
  · cases found

theorem except_bind_eq_ok {f : α → Except ε β} {b : β} (h : x >>= f = .ok b) :
    ∃ a, x = .ok a ∧ f a = .ok b := by
  cases x with
  | error e => cases h
  | ok a => exact ⟨a, rfl, h⟩

/-- What a native function comes to is known when its arguments are. -/
theorem Native.effect_isKnown {f : Native} (known : w.heap.IsKnown count)
    (all : ∀ v ∈ args, v.IsKnown count) (found : f.effect args w = .ok e) : e.IsKnown count := by
  cases f with
  | display | rawDisplay =>
    obtain ⟨_, -, rfl⟩ := except_map_eq_ok found
    exact argument_isKnown all 0
  | error =>
    rw [Native.effect] at found
    split at found <;> cases found
  | stringify | test | getTime | isList | random =>
    cases found
    trivial
  | pair =>
    cases found
    exact ⟨argument_isKnown all 0, argument_isKnown all 1⟩
  | list =>
    cases found
    exact all
  | head =>
    obtain ⟨p, pair, rfl⟩ := except_map_eq_ok found
    exact (known.pairs (pairArgument_eq_ok pair)).1
  | tail =>
    obtain ⟨p, pair, rfl⟩ := except_map_eq_ok found
    exact (known.pairs (pairArgument_eq_ok pair)).2
  | setHead | setTail =>
    obtain ⟨p, -, rfl⟩ := except_map_eq_ok found
    exact argument_isKnown all 1
  | arityOf | real | min | max | hypot =>
    obtain ⟨_, -, rfl⟩ := except_map_eq_ok found
    trivial
  | parseInt =>
    obtain ⟨_, -, found⟩ := except_bind_eq_ok found
    obtain ⟨_, -, found⟩ := except_bind_eq_ok found
    obtain ⟨_, -, rfl⟩ := except_map_eq_ok found
    trivial
  | charAt =>
    obtain ⟨_, -, found⟩ := except_bind_eq_ok found
    obtain ⟨_, -, found⟩ := except_bind_eq_ok found
    obtain ⟨v, character, rfl⟩ := except_map_eq_ok found
    rw [characterAt] at character
    split at character
    · cases character
      split <;> trivial
    · cases character
  | pow | atan2 =>
    obtain ⟨_, -, found⟩ := except_bind_eq_ok found
    obtain ⟨_, -, found⟩ := except_bind_eq_ok found
    cases found
    trivial

end SourceMachine
