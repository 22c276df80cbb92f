import SourceMachine.Proofs.Program.Rounds
import SourceMachine.Proofs.Program.Runs

/-!
# Readers on twin streams

A reader looks at the kinds of tokens and at the line ends before them, and it takes over
their places.  So on two streams that differ only in places (`Stream.Twin`) it accepts the
same tokens, and gives results that differ only in places.

`Agrees r r' Q`: on twin streams, what `r` accepts is accepted by `r'`, with results in `Q`, and
twin streams are left.  The names of identifiers are known to be spelled, and on a stream and
itself the two results are one; so `Q` may also say what holds of a single result.  Readers
are followed from left to right, as the two of them go through the same steps.
-/

namespace SourceMachine

/-- Every character may stand in an identifier. -/
def IsSpelled (name : String) : Prop :=
  ∀ c ∈ name.toList, isIdentifierRest c = true

/-- If the token is an identifier, its name is spelled with the characters of one. -/
def Kind.IsSpelled (kind : Kind) : Prop :=
  ∀ name, kind = .identifier name → SourceMachine.IsSpelled name

/-! ## Names of tokens -/

theorem stringFrom_ne_identifier (quote : Char) (n : Nat) (done : List Char) (e : Escape)
    (cs : List Char) (name : String) : (stringFrom quote n done e cs).1 ≠ .identifier name := by
  fun_induction stringFrom quote n done e cs <;> first | assumption | simp

theorem templateFrom_ne_identifier (n : Nat) (done : List Char) (b : Bool) (cs : List Char)
    (name : String) : (templateFrom n done b cs).1 ≠ .identifier name := by
  fun_induction templateFrom n done b cs <;> first | assumption | simp

theorem numberLexeme_ne_identifier (cs : List Char) (name : String) :
    (numberLexeme cs).1 ≠ .identifier name := by
  unfold numberLexeme
  split
  · split
    · unfold wholeLexeme
      dsimp only
      split <;> nofun
    · nofun
  · nofun

theorem nameLexeme_isSpelled (cs : List Char) : (nameLexeme cs).1.IsSpelled := by
  intro name kind
  unfold nameLexeme at kind
  dsimp only at kind
  split at kind
  · cases kind
  · cases kind
    intro c member
    rw [String.toList_ofList] at member
    exact List.mem_takeWhile_imp member

theorem lexeme_isSpelled (cs : List Char) : (lexeme cs).1.IsSpelled := by
  intro name kind
  unfold lexeme at kind
  split at kind
  · cases kind
  · split at kind
    · exact absurd kind (numberLexeme_ne_identifier _ _)
    · split at kind
      · cases kind
      · split at kind
        · exact absurd kind (stringFrom_ne_identifier _ _ _ _ _ _)
        · split at kind
          · exact absurd kind (templateFrom_ne_identifier _ _ _ _ _)
          · split at kind
            · exact nameLexeme_isSpelled _ _ kind
            · cases kind

theorem Scanner.next_isSpelled (s : Scanner) : s.next.1.kind.IsSpelled :=
  lexeme_isSpelled _

theorem Scanner.tokensAfter_isSpelled {before : List Token} {s : Scanner}
    (spelled : ∀ t ∈ before, t.kind.IsSpelled) : ∀ t ∈ s.tokensAfter before, t.kind.IsSpelled := by
  fun_induction Scanner.tokensAfter before s with
  | case1 before s ended =>
    intro t member
    rw [List.mem_reverse, List.mem_cons] at member
    rcases member with rfl | member
    · exact s.next_isSpelled
    · exact spelled t member
  | case2 before s _ ih =>
    refine ih fun t member => ?_
    rcases List.mem_cons.1 member with rfl | member
    · exact s.next_isSpelled
    · exact spelled t member

/-! ## Streams -/

/-- The same name in two places, spelled with the characters of identifiers. -/
structure Identifier.Twin (a b : Identifier) : Prop where
  name : a.name = b.name
  spelled : IsSpelled a.name

/-- Tokens that differ only in their places, and any name is spelled. -/
structure Token.Twin (t u : Token) : Prop where
  kind : t.kind = u.kind
  newlineBefore : t.newlineBefore = u.newlineBefore
  spelled : t.kind.IsSpelled

/-- Streams of twin tokens. -/
structure Stream.Twin (s t : Stream) : Prop where
  current : s.current.Twin t.current
  rest : List.Forall₂ Token.Twin s.rest t.rest

namespace Stream.Twin

variable {s t : Stream}

theorem refl (spelled : ∀ t ∈ s.current :: s.rest, t.kind.IsSpelled) : s.Twin s := by
  have same (t : Token) (member : t ∈ s.current :: s.rest) : t.Twin t :=
    ⟨rfl, rfl, spelled t member⟩
  obtain ⟨current, rest⟩ := List.forall_mem_cons.1 same
  exact ⟨current, List.forall₂_same.2 rest⟩

theorem left (twin : s.Twin t) : s.left = t.left := by
  rw [s.left_eq, t.left_eq, twin.rest.length_eq]

theorem advance (twin : s.Twin t) : s.advance.Twin t.advance := by
  obtain ⟨current, rest⟩ := twin
  obtain ⟨c, rest₁, stop, left, left_eq⟩ := s
  obtain ⟨d, rest₂, stop', left', left_eq'⟩ := t
  cases rest with
  | nil => exact ⟨current, .nil⟩
  | cons first others => exact ⟨first, others⟩

theorem symm (twin : s.Twin t) : t.Twin s := by
  have flip {t u : Token} (twin : t.Twin u) : u.Twin t :=
    ⟨twin.kind.symm, twin.newlineBefore.symm, twin.kind ▸ twin.spelled⟩
  exact ⟨flip twin.current, (twin.rest.imp fun _ _ => flip).flip⟩

end Stream.Twin

namespace Reader

/-- On twin streams, what the first reader accepts the second one accepts as well, with
    results in `Q`, and twin streams are left. -/
def Agrees {α : Type} (r r' : Reader α) (Q : α → α → Prop) : Prop :=
  ∀ ⦃s t a s'⦄, s.Twin t → r s = .ok (a, s') → ∃ b t', r' t = .ok (b, t') ∧ Q a b ∧ s'.Twin t'

/-- On twin streams a reader does the same, with results in `Q`. -/
abbrev Steady {α : Type} (r : Reader α) (Q : α → α → Prop) : Prop :=
  Agrees r r Q

/-- The ends of two rounds: both loops go on in `P`, or both are done in `Q`. -/
inductive Round.Both {α β : Type} (P : α → α → Prop) (Q : β → β → Prop) :
    Round α β → Round α β → Prop where
  | more {a b : α} (states : P a b) : Both P Q (.more a) (.more b)
  | done {a b : β} (results : Q a b) : Both P Q (.done a) (.done b)

namespace Agrees

variable {α β : Type} {P : α → α → Prop} {Q : β → β → Prop} {r r' : Reader α} {f f' : α → Reader β}
  {u : Reader β} {k : Kind}

theorem pure {a b : α} (holds : P a b) : Agrees (Pure.pure a) (Pure.pure b) P := by
  intro s t c s' twin accepted
  cases accepted
  exact ⟨b, t, rfl, holds, twin⟩

theorem bind (first : Agrees r r' P) (onwards : ∀ a b, P a b → Agrees (f a) (f' b) Q) :
    Agrees (r >>= f) (r' >>= f') Q := by
  intro s t c s' twin accepted
  obtain ⟨a, s₁, read, rest⟩ := exists_of_bind_ok accepted
  obtain ⟨b, t₁, read', holds, twin₁⟩ := first twin read
  obtain ⟨d, t', rest', result, twin'⟩ := onwards a b holds twin₁ rest
  exact ⟨d, t', (bind_of_ok read').trans rest', result, twin'⟩

/-- A first reader whose results are the same. -/
theorem andThen (first : Agrees r r' Eq) (onwards : ∀ a, Agrees (f a) (f' a) Q) :
    Agrees (r >>= f) (r' >>= f') Q :=
  first.bind fun a _ same => same ▸ onwards a

theorem mono {P' : α → α → Prop} (agrees : Agrees r r' P) (weaker : ∀ a b, P a b → P' a b) :
    Agrees r r' P' := by
  intro s t a s' twin accepted
  obtain ⟨b, t', read, holds, left⟩ := agrees twin accepted
  exact ⟨b, t', read, weaker a b holds, left⟩

theorem ite {c : Prop} [Decidable c] {u u' : Reader α} (pos : Agrees r r' P)
    (neg : Agrees u u' P) : Agrees (if c then r else u) (if c then r' else u') P := by
  split
  · exact pos
  · exact neg

theorem ite_of {c : Prop} [Decidable c] {u u' : Reader α} (pos : c → Agrees r r' P)
    (neg : ¬c → Agrees u u' P) : Agrees (if c then r else u) (if c then r' else u') P := by
  split
  · exact pos ‹_›
  · exact neg ‹_›

/-! ## Readers that refuse -/

theorem refuse (cause : Refusal.Cause) : Agrees (Reader.refuse cause) r P :=
  fun _ _ _ _ _ accepted => nomatch accepted

theorem unexpected (expected : Expectation) : Agrees (Reader.unexpected expected) r P :=
  fun _ _ _ _ _ accepted => nomatch accepted

/-- Nothing follows a refusal. -/
theorem refuse_bind (cause : Refusal.Cause) : Agrees (Reader.refuse cause >>= f) u Q :=
  fun _ _ _ _ _ accepted => nomatch accepted

theorem unexpected_bind (expected : Expectation) : Agrees (Reader.unexpected expected >>= f) u Q :=
  fun _ _ _ _ _ accepted => nomatch accepted

theorem throw_bind (refusal : Refusal) :
    Agrees ((MonadExcept.throw refusal : Reader α) >>= f) u Q :=
  fun _ _ _ _ _ accepted => nomatch accepted

/-! ## Single tokens -/

theorem current {f f' : Token → Reader β} (onwards : ∀ kind newline span span',
    kind.IsSpelled → Agrees (f ⟨kind, span, newline⟩) (f' ⟨kind, span', newline⟩) Q) :
    Agrees (Reader.current >>= f) (Reader.current >>= f') Q := by
  intro s t b s' twin accepted
  obtain ⟨⟨kind, span, newline⟩, rest, stop, left, left_eq⟩ := s
  obtain ⟨⟨kind', span', newline'⟩, rest', stop', left', left_eq'⟩ := t
  obtain ⟨same, line, spelled⟩ := twin.current
  cases same
  cases line
  exact onwards kind newline span span' spelled twin accepted

theorem get {f f' : Stream → Reader β} (onwards : ∀ s t, s.Twin t → Agrees (f s) (f' t) Q) :
    Agrees (MonadState.get >>= f) (MonadState.get >>= f') Q :=
  fun s t _ _ twin accepted => onwards s t twin twin accepted

theorem spanFrom {start start' : Span} {f f' : Span → Reader β}
    (onwards : ∀ span span', Agrees (f span) (f' span') Q) :
    Agrees (Reader.spanFrom start >>= f) (Reader.spanFrom start' >>= f') Q :=
  fun _ _ _ _ twin accepted => onwards _ _ twin accepted

theorem advance {f f' : Unit → Reader β} (onwards : Agrees (f ()) (f' ()) Q) :
    Agrees (Reader.advance >>= f) (Reader.advance >>= f') Q :=
  fun _ _ _ _ twin accepted => onwards twin.advance accepted

theorem isAt {f f' : Bool → Reader β} (onwards : ∀ b, Agrees (f b) (f' b) Q) :
    Agrees (Reader.isAt k >>= f) (Reader.isAt k >>= f') Q := by
  intro s t a s' twin accepted
  have here : (decide (t.current.kind = k)) = decide (s.current.kind = k) := by
    rw [twin.current.kind]
  show ∃ b t', f' (decide (t.current.kind = k)) t = .ok (b, t') ∧ _
  rw [here]
  exact onwards _ twin accepted

theorem accept {f f' : Bool → Reader β} (onwards : ∀ b, Agrees (f b) (f' b) Q) :
    Agrees (Reader.accept k >>= f) (Reader.accept k >>= f') Q := by
  have taken : Agrees (Reader.accept k) (Reader.accept k) Eq :=
    isAt fun _ => ite (advance (pure rfl)) (pure rfl)
  exact taken.andThen onwards

theorem expect {f f' : Unit → Reader β} (onwards : Agrees (f ()) (f' ()) Q) :
    Agrees (Reader.expect k >>= f) (Reader.expect k >>= f') Q := by
  have taken : Agrees (Reader.expect k) (Reader.expect k) Eq :=
    accept fun _ => ite (pure rfl) (unexpected _)
  exact taken.andThen fun _ => onwards

theorem endOfStatement {f f' : Unit → Reader β} (onwards : Agrees (f ()) (f' ()) Q) :
    Agrees (Reader.endOfStatement >>= f) (Reader.endOfStatement >>= f') Q := by
  have taken : Agrees Reader.endOfStatement Reader.endOfStatement Eq :=
    accept fun _ => ite (pure rfl) (current fun _ _ _ _ _ => ite (pure rfl) (unexpected _))
  exact taken.andThen fun _ => onwards

theorem identifier {f f' : Identifier → Reader β}
    (onwards : ∀ a b, a.Twin b → Agrees (f a) (f' b) Q) :
    Agrees (Reader.identifier >>= f) (Reader.identifier >>= f') Q := by
  have taken : Agrees Reader.identifier Reader.identifier Identifier.Twin := by
    refine current fun kind _ _ _ spelled => ?_
    cases kind with
    | identifier name => exact advance (pure ⟨rfl, spelled name rfl⟩)
    | _ => exact unexpected _
  exact taken.bind onwards

theorem propertyName {f f' : Identifier → Reader β}
    (onwards : ∀ a b, a.name = b.name → Agrees (f a) (f' b) Q) :
    Agrees (Reader.propertyName >>= f) (Reader.propertyName >>= f') Q := by
  have taken : Agrees Reader.propertyName Reader.propertyName fun a b => a.name = b.name := by
    refine current fun kind _ _ _ _ => ?_
    cases kind with
    | identifier name => exact advance (pure rfl)
    | keyword word => exact advance (pure rfl)
    | _ => exact unexpected _
  exact taken.bind onwards

/-! ## Loops -/

theorem rounds {round round' : α → Reader (Round α β)} {a b : α}
    (turn : ∀ a b, P a b → Agrees (round a) (round' b) (Round.Both P Q)) (start : P a b) :
    Agrees (Reader.rounds round a) (Reader.rounds round' b) Q := by
  intro s t c s' twin accepted
  fun_induction Reader.rounds round a s generalizing b t with
  | case1 => cases accepted
  | case2 a s result s₁ read =>
    cases accepted
    obtain ⟨_, t₁, read', results, left⟩ := turn a b start twin read
    cases results with
    | done results => exact ⟨_, t₁, rounds_of_done read', results, left⟩
  | case3 a s a' s₁ read shorter ih =>
    obtain ⟨_, t₁, read', states, left⟩ := turn a b start twin read
    cases states with
    | more states =>
      rw [rounds_of_more read' (by rwa [← twin.left, ← left.left])]
      exact ih states left accepted
  | case4 => cases accepted

theorem commaList {close : Mark} {item item' : Reader α} (each : Agrees item item' P) :
    Agrees (Reader.commaList close item) (Reader.commaList close item') (List.Forall₂ P) := by
  refine bind (P := List.Forall₂ P) (rounds (P := List.Forall₂ P) ?_ .nil) ?_
  · intro items items' holds
    refine isAt fun _ => ite (pure (.done holds)) (each.bind fun a b first => accept fun _ => ?_)
    exact ite (pure (.more (.cons first holds))) (pure (.done (.cons first holds)))
  · intro items items' holds
    exact expect (pure (List.rel_reverse holds))

end Agrees

end Reader

end SourceMachine
