import SourceMachine.Proofs.Value.Rendering
import SourceMachine.Value.Json

/-!
# Which values have a JSON text

Writing a value as JSON recurses into the pairs it is made of, and stops where they are nested
too deep.  `Heap.HasJson` is the plain recursion on heads and tails, without a limit: a relation,
as a cyclic value has no text.  `Heap.IsPathFrom` says what the limit counts: the pairs of a path
into a value, on which each is the head or the tail of the one before.

`jsonOnto_cases` is the one induction: a value has a path that is too long, and there is no text,
or all its paths are short enough and its text is written.
-/

namespace SourceMachine

variable {h : Heap} {v head tail : Value} {id whole : PairId} {text : String} {path : List PairId}

/-- A path into a value: pairs that start with the value, each the head or the tail of the one
    before. -/
def Heap.IsPathFrom (h : Heap) (v : Value) (path : List PairId) : Prop :=
  (∀ first ∈ path.head?, v = .pair first) ∧ path.IsChain h.HasPart

/-- The JSON text of a value by recursion on heads and tails. -/
inductive Heap.HasJson (h : Heap) : Value → String → Prop where
  | leaf {v : Value} (closed : ∀ id, v = .pair id → h.pair? id = none) : HasJson h v (v.jsonLeaf h)
  | pair {id : PairId} {head tail : Value} {first second : String}
      (found : h.pair? id = some (head, tail)) (ofHead : HasJson h head first)
      (ofTail : HasJson h tail second) :
      HasJson h (.pair id) ("[" ++ first ++ "," ++ second ++ "]")

/-! ## Paths -/

/-- A path into a pair goes on as a path into its head or into its tail. -/
theorem Heap.IsPathFrom.of_cons (found : h.pair? whole = some (head, tail))
    (isPath : h.IsPathFrom (.pair whole) (id :: path)) :
    h.IsPathFrom head path ∨ h.IsPathFrom tail path := by
  obtain ⟨starts, chain⟩ := isPath
  obtain rfl : whole = id := Value.pair.inj (starts id rfl)
  cases path with
  | nil => exact .inl ⟨nofun, .nil⟩
  | cons next path =>
    obtain ⟨⟨head', tail', found', isPart⟩, onwards⟩ := List.isChain_cons_cons.1 chain
    cases found.symm.trans found'
    refine isPart.imp ?_ ?_ <;>
      exact fun same => ⟨fun first isFirst => Option.some.inj isFirst ▸ same, onwards⟩

/-- A path into the head or the tail of a pair, from the pair on. -/
theorem Heap.IsPathFrom.cons {part : Value} (found : h.pair? whole = some (head, tail))
    (isPart : part = head ∨ part = tail) (isPath : h.IsPathFrom part path) :
    h.IsPathFrom (.pair whole) (whole :: path) := by
  obtain ⟨starts, chain⟩ := isPath
  refine ⟨fun first isFirst => Option.some.inj isFirst ▸ rfl, chain.cons fun next isNext => ?_⟩
  refine ⟨head, tail, found, isPart.imp ?_ ?_⟩ <;>
    exact fun same => same ▸ starts next isNext

/-- A path into what is not opened has at most one pair. -/
theorem Heap.IsPathFrom.length_le_one (closed : ∀ id, v = .pair id → h.pair? id = none)
    (isPath : h.IsPathFrom v path) : path.length ≤ 1 := by
  obtain ⟨starts, chain⟩ := isPath
  match path, chain with
  | [], _ | [_], _ => simp
  | first :: next :: _, chain =>
    obtain ⟨⟨_, _, found, -⟩, -⟩ := List.isChain_cons_cons.1 chain
    rw [closed first (starts first rfl)] at found
    cases found

/-! ## Texts -/

/-- A value has at most one JSON text. -/
theorem Heap.HasJson.unique {other : String} (one : h.HasJson v text) (two : h.HasJson v other) :
    text = other := by
  induction one generalizing other with
  | leaf closed =>
    cases two with
    | leaf => rfl
    | pair found => cases (closed _ rfl).symm.trans found
  | pair found _ _ ihHead ihTail =>
    cases two with
    | leaf closed => cases (closed _ rfl).symm.trans found
    | pair found' ofHead ofTail =>
      cases found.symm.trans found'
      rw [ihHead ofHead, ihTail ofTail]

/-- The text of a part is in that of the whole. -/
theorem Heap.HasJson.part (hasJson : h.HasJson (.pair whole) text) (isPart : h.HasPart whole id) :
    ∃ inner, h.HasJson (.pair id) inner ∧ inner.length < text.length := by
  obtain ⟨head, tail, found, isPart⟩ := isPart
  cases hasJson with
  | leaf closed => cases (closed _ rfl).symm.trans found
  | @pair _ _ _ first second found' ofHead ofTail =>
    cases found.symm.trans found'
    have opening : 0 < "[".length := by decide
    rcases isPart with rfl | rfl
    · exact ⟨first, ofHead, by simp only [String.length_append]; omega⟩
    · exact ⟨second, ofTail, by simp only [String.length_append]; omega⟩

/-- A value that contains a cycle has no text: it would be a part of itself. -/
theorem Heap.HasJson.not_isCyclic (hasJson : h.HasJson v text) (contained : h.Contains v id) :
    ¬ h.IsCyclic id := by
  intro cyclic
  have inside {a b : PairId} {outer : String} (ofOuter : h.HasJson (.pair a) outer)
      (path : Relation.TransGen h.HasPart a b) :
      ∃ inner, h.HasJson (.pair b) inner ∧ inner.length < outer.length := by
    induction path with
    | single isPart => exact ofOuter.part isPart
    | tail _ isPart ih =>
      obtain ⟨middle, ofMiddle, shorter⟩ := ih
      obtain ⟨inner, ofInner, less⟩ := ofMiddle.part isPart
      exact ⟨inner, ofInner, less.trans shorter⟩
  obtain ⟨first, rfl, path⟩ := contained
  have here : ∃ inner, h.HasJson (.pair id) inner := by
    rcases Relation.reflTransGen_iff_eq_or_transGen.1 path with rfl | path
    · exact ⟨text, hasJson⟩
    · exact (inside hasJson path).imp fun _ => And.left
  obtain ⟨outer, ofOuter⟩ := here
  obtain ⟨inner, ofInner, shorter⟩ := inside ofOuter cyclic
  exact shorter.ne (congrArg String.length (ofInner.unique ofOuter))

/-! ## The limit -/

/-- What is not opened is written as it is, if there is room or it is no pair. -/
theorem Value.jsonOnto_leaf {room : Nat} (closed : ∀ id, v = .pair id → h.pair? id = none)
    (fits : ∀ id, v = .pair id → 0 < room) (out : String) :
    v.jsonOnto h room out = .ok (out ++ v.jsonLeaf h) := by
  cases v with
  | pair id =>
    obtain ⟨room, rfl⟩ := Nat.exists_eq_add_one.2 (fits id rfl)
    rw [Value.jsonOnto, closed id rfl]
  | _ => cases room <;> rfl

/-- Of a pair, the head is written and then the tail. -/
theorem Value.jsonOnto_pair (found : h.pair? id = some (head, tail)) (room : Nat) (out : String) :
    (Value.pair id).jsonOnto h (room + 1) out =
      (head.jsonOnto h room (out ++ "[")).bind fun out =>
        (tail.jsonOnto h room (out ++ ",")).bind fun out => .ok (out ++ "]") := by
  rw [jsonOnto, found]
  rfl

/-- A value has a path that is too long, and no text, or its text is written. -/
theorem Value.jsonOnto_cases (h : Heap) (room : Nat) (v : Value) :
    ((∃ path, h.IsPathFrom v path ∧ room < path.length) ∧
      ∀ out, v.jsonOnto h room out = .error jsonTooDeep) ∨
    ((∀ path, h.IsPathFrom v path → path.length ≤ room) ∧
      ∃ text, h.HasJson v text ∧ ∀ out, v.jsonOnto h room out = .ok (out ++ text)) := by
  induction room generalizing v with
  | zero =>
    cases v with
    | pair id => exact .inl ⟨⟨[id], ⟨by simp, .singleton id⟩, Nat.one_pos⟩, fun _ => rfl⟩
    | _ =>
      refine .inr ⟨fun path ⟨starts, _⟩ => ?_, _, .leaf nofun, jsonOnto_leaf nofun nofun⟩
      cases path with
      | nil => exact Nat.le_refl 0
      | cons first => cases starts first rfl
  | succ room ih =>
    by_cases closed : ∀ id, v = .pair id → h.pair? id = none
    · exact .inr ⟨fun path isPath => (isPath.length_le_one closed).trans (by omega), _,
        .leaf closed, jsonOnto_leaf closed fun _ _ => by omega⟩
    · obtain ⟨id, rfl, opened⟩ : ∃ id, v = .pair id ∧ h.pair? id ≠ none := by simpa using closed
      obtain ⟨⟨head, tail⟩, found⟩ := Option.ne_none_iff_exists'.1 opened
      have deeper {part : Value} (isPart : part = head ∨ part = tail) :
          (∃ path, h.IsPathFrom part path ∧ room < path.length) →
            ∃ path, h.IsPathFrom (.pair id) path ∧ room + 1 < path.length := by
        rintro ⟨path, isPath, long⟩
        exact ⟨id :: path, .cons found isPart isPath, Nat.succ_lt_succ long⟩
      rcases ih head with ⟨long, fails⟩ | ⟨shortHead, first, ofHead, writesHead⟩
      · exact .inl ⟨deeper (.inl rfl) long, fun out => by rw [jsonOnto_pair found, fails]; rfl⟩
      rcases ih tail with ⟨long, fails⟩ | ⟨shortTail, second, ofTail, writesTail⟩
      · exact .inl ⟨deeper (.inr rfl) long, fun out => by
          rw [jsonOnto_pair found, writesHead, Except.bind, fails]
          rfl⟩
      refine .inr ⟨fun path isPath => ?_, _, .pair found ofHead ofTail, fun out => ?_⟩
      · cases path with
        | nil => exact Nat.zero_le _
        | cons other path =>
          rcases isPath.of_cons found with inHead | inTail
          · exact Nat.succ_le_succ (shortHead path inHead)
          · exact Nat.succ_le_succ (shortTail path inTail)
      · rw [jsonOnto_pair found, writesHead, Except.bind, writesTail]
        simp only [Except.bind, String.append_assoc]

/-- Writing a value as JSON fails exactly when a chain of more than `maxJsonNesting` pairs starts
    at it, each the head or the tail of the one before.  A value that contains a cycle is such a
    value, and every other one has the text that recursion on heads and tails gives. -/
theorem Value.json_fails_iff_nested_deeper (h : Heap) (v : Value) :
    (∀ message, v.json h = .error message ↔
      message = jsonTooDeep ∧ ∃ path, h.IsPathFrom v path ∧ maxJsonNesting < path.length) ∧
    (∀ text, v.json h = .ok text ↔
      (∀ path, h.IsPathFrom v path → path.length ≤ maxJsonNesting) ∧ h.HasJson v text) ∧
    ∀ id, h.Contains v id → h.IsCyclic id → v.json h = .error jsonTooDeep := by
  unfold Value.json
  rcases Value.jsonOnto_cases h maxJsonNesting v with ⟨long, fails⟩ | ⟨short, text, hasJson, writes⟩
  · obtain ⟨path, isPath, tooLong⟩ := long
    rw [fails]
    refine ⟨fun message => ?_, fun text => ?_, fun _ _ _ => rfl⟩
    · simpa [eq_comm] using fun _ => ⟨path, isPath, tooLong⟩
    · refine ⟨nofun, fun ⟨short, _⟩ => ?_⟩
      exact absurd (short path isPath) (Nat.not_le.2 tooLong)
  · rw [writes, String.empty_append]
    refine ⟨fun message => ⟨nofun, fun ⟨_, path, isPath, long⟩ => ?_⟩, fun other => ?_,
      fun id contained cyclic => absurd cyclic (hasJson.not_isCyclic contained)⟩
    · exact absurd (short path isPath) (Nat.not_le.2 long)
    · refine ⟨fun same => ⟨short, Except.ok.inj same ▸ hasJson⟩, fun ⟨_, ofOther⟩ => ?_⟩
      rw [hasJson.unique ofOther]

end SourceMachine
