import SourceMachine.Proofs.Program.Runs
import SourceMachine.Proofs.Token.Words

/-!
# What readers give

`Gives r words ends fits Q`: at a stream that shows the words and then a token in `ends`, the
reader `r` takes just the words, and its result is in `Q`.  This holds if the phrase `fits`
into the levels that are left; if not, the reader refuses it as nested too deep.

Readers are followed token by token (`Gives.token`, `Gives.look`) and phrase by phrase
(`Gives.bind`).  What a phrase needs of the token after it is asked of the phrase that
follows: of its first word, or, if it has no words, of what ends it (`First`).
-/

namespace SourceMachine

variable {w : Word} {P : Kind → Prop} {ends : Kind → Bool} {words : List Word} {x : Name} {ι : Type}

/-! ## Streams that show words -/

/-- The tokens of a stream are of these kinds, and all of them are in one line. -/
def Stream.Shows (s : Stream) (kinds : List Kind) : Prop :=
  (s.current :: s.rest).map (fun t => (t.kind, t.newlineBefore)) = kinds.map fun k => (k, false)

namespace Stream.Shows

variable {s : Stream} {k k' : Kind} {kinds : List Kind}

theorem kind (shows : s.Shows (k :: kinds)) : s.current.kind = k := by
  simp only [Stream.Shows, List.map_cons, List.cons.injEq, Prod.mk.injEq] at shows
  exact shows.1.1

theorem newlineBefore (shows : s.Shows (k :: kinds)) : s.current.newlineBefore = false := by
  simp only [Stream.Shows, List.map_cons, List.cons.injEq, Prod.mk.injEq] at shows
  exact shows.1.2

theorem advance (shows : s.Shows (k :: k' :: kinds)) : s.advance.Shows (k' :: kinds) := by
  simp only [Stream.Shows, List.map_cons, List.cons.injEq] at shows
  have others := shows.2
  unfold Stream.advance
  split
  · next nothing =>
    rw [nothing] at others
    cases others
  · next t ts rest =>
    rw [rest] at others
    exact others

theorem left_succ (shows : s.Shows kinds) : s.left + 1 = kinds.length := by
  have lengths := congrArg List.length shows
  simp only [List.length_map, List.length_cons] at lengths
  rw [s.left_eq, lengths]

end Stream.Shows

namespace Reader

/-- The first token, whatever ends the words, is in `P`. -/
def First (words : List Word) (ends : Kind → Bool) (P : Kind → Prop) : Prop :=
  ∀ k, ends k = true → P ((words.map Word.kind).headD k)

theorem First.cons (first : P w.kind) : First (w :: words) ends P :=
  fun _ _ => first

theorem First.nil (all : ∀ k, ends k = true → P k) : First [] ends P :=
  all

/-- There is a first word, and its token is in `P`. -/
def Opens (words : List Word) (P : Kind → Bool) : Prop :=
  ∃ w rest, words = w :: rest ∧ P w.kind = true

namespace Opens

variable {words : List Word} {P P' : Kind → Bool}

theorem ne_nil (opens : Opens words P) : words ≠ [] := by
  obtain ⟨w, rest, rfl, -⟩ := opens
  simp

theorem first {K : Kind → Prop} (opens : Opens words P)
    (all : ∀ k, P k = true → K k) : First words ends K := by
  obtain ⟨w, rest, rfl, first⟩ := opens
  exact .cons (all _ first)

theorem append (opens : Opens words P) (more : List Word) : Opens (words ++ more) P := by
  obtain ⟨w, rest, rfl, first⟩ := opens
  exact ⟨w, rest ++ more, rfl, first⟩

theorem mono (opens : Opens words P) (all : ∀ k, P k = true → P' k = true) : Opens words P' := by
  obtain ⟨w, rest, rfl, first⟩ := opens
  exact ⟨w, rest, rfl, all _ first⟩

end Opens

theorem exists_kinds (words : List Word) (k : Kind) (kinds : List Kind) :
    ∃ kinds', words.map Word.kind ++ k :: kinds = (words.map Word.kind).headD k :: kinds' := by
  cases words with
  | nil => exact ⟨kinds, rfl⟩
  | cons w words => exact ⟨_, rfl⟩

theorem advance_shows {s : Stream} {k : Kind} {kinds : List Kind}
    (shows : s.Shows ((w :: words).map Word.kind ++ k :: kinds)) :
    s.advance.Shows (words.map Word.kind ++ k :: kinds) := by
  obtain ⟨kinds', split⟩ := exists_kinds words k kinds
  rw [List.map_cons, List.cons_append, split] at shows
  exact split ▸ shows.advance

/-! ## Readers on words -/

/-- What comes out is in `Q` if the phrase fits; otherwise it was nested too deep. -/
def Answers {α : Type} (fits : Prop) (Q : α → Stream → Prop) :
    Except Refusal (α × Stream) → Prop
  | .ok (a, s) => fits ∧ Q a s
  | .error refusal => ¬fits ∧ refusal.cause = .tooDeep

namespace Answers

variable {α : Type} {fits fits' : Prop} {Q Q' : α → Stream → Prop}
  {result : Except Refusal (α × Stream)}

theorem mono (answers : Answers fits Q result) (weaker : ∀ a s, Q a s → Q' a s) :
    Answers fits Q' result := by
  cases result with
  | error refusal => exact answers
  | ok result => exact ⟨answers.1, weaker _ _ answers.2⟩

/-- Phrases before this one that fit change nothing. -/
theorem and_left (answers : Answers fits' Q result) (fit : fits) :
    Answers (fits ∧ fits') Q result := by
  cases result with
  | error refusal => exact ⟨fun both => answers.1 both.2, answers.2⟩
  | ok result => exact ⟨⟨fit, answers.1⟩, answers.2⟩

theorem exists_ok (answers : Answers fits Q result) (fit : fits) :
    ∃ a s, result = .ok (a, s) ∧ Q a s := by
  cases result with
  | error refusal => exact absurd fit answers.1
  | ok result => exact ⟨result.1, result.2, rfl, answers.2⟩

theorem exists_error (answers : Answers fits Q result) (unfit : ¬fits) :
    ∃ refusal, result = .error refusal ∧ refusal.cause = .tooDeep := by
  cases result with
  | error refusal => exact ⟨refusal, rfl, answers.2⟩
  | ok result => exact absurd answers.1 unfit

end Answers

/-- On these words, and with a token in `ends` after them, the reader takes the words and
    gives a result in `Q`. -/
def Gives {α : Type} (r : Reader α) (words : List Word) (ends : Kind → Bool) (fits : Prop)
    (Q : α → Prop) : Prop :=
  ∀ ⦃s k kinds⦄, ends k = true → s.Shows (words.map Word.kind ++ k :: kinds) →
    Answers fits (fun a s' => Q a ∧ s'.Shows (k :: kinds)) (r s)

/-- The round is the last one, and its result is in `Q`. -/
def Round.IsDone {α β : Type} (Q : β → Prop) : Round α β → Prop
  | .more _ => False
  | .done b => Q b

/-- The loop goes on with a state in `P`. -/
def Round.IsMore {α β : Type} (P : α → Prop) : Round α β → Prop
  | .more state => P state
  | .done _ => False

namespace Gives

variable {α β : Type} {words words' : List Word} {ends ends' : Kind → Bool} {fits fits' : Prop}
  {P : α → Prop} {Q : β → Prop} {r : Reader α}

theorem pure {a : α} (holds : P a) : Gives (Pure.pure a) [] ends True P :=
  fun _ _ _ _ shows => ⟨trivial, holds, shows⟩

theorem pure_bind {a : α} {f : α → Reader β} (h : Gives (f a) words ends fits Q) :
    Gives (Pure.pure a >>= f) words ends fits Q :=
  h

section

variable {r : Reader α} (h : Gives r words ends fits P)

include h

theorem congr (same : words' = words) (iff : fits' ↔ fits) : Gives r words' ends fits' P := by
  rw [same, propext iff]
  exact h

theorem mono {P' : α → Prop} (weaker : ∀ a, P a → P' a) : Gives r words ends fits P' := by
  intro s k kinds ended shows
  exact (h ended shows).mono fun a s' holds => ⟨weaker a holds.1, holds.2⟩

theorem of_ends (fewer : ∀ k, ends' k = true → ends k = true) : Gives r words ends' fits P :=
  fun _ k _ ended shows => h (fewer k ended) shows

end

/-- A reader may be replaced by one that does the same on these words. -/
theorem of_eq (r' : Reader α) (h : Gives r' words ends fits P)
    (same : ∀ ⦃s k kinds⦄, ends k = true → s.Shows (words.map Word.kind ++ k :: kinds) → r s = r' s)
    : Gives r words ends fits P := by
  intro s k kinds ended shows
  rw [same ended shows]
  exact h ended shows

section

variable {r : Reader α} (first : Gives r words ends fits P) {f : α → Reader β}

include first

theorem bind (meets : First words' ends' (ends · = true))
    (onwards : ∀ a, P a → Gives (f a) words' ends' fits' Q) :
    Gives (r >>= f) (words ++ words') ends' (fits ∧ fits') Q := by
  intro s k kinds ended shows
  rw [List.map_append, List.append_assoc] at shows
  show Answers _ _ (Except.bind (r s) fun result => f result.1 result.2)
  obtain ⟨kinds', split⟩ := exists_kinds words' k kinds
  have taken := first (meets k ended) (split ▸ shows)
  cases read : r s with
  | error refusal =>
    rw [read] at taken
    exact ⟨fun both => taken.1 both.1, taken.2⟩
  | ok result =>
    obtain ⟨a, s₁⟩ := result
    rw [read] at taken
    obtain ⟨fit, holds, shows₁⟩ := taken
    exact (onwards a holds ended (split ▸ shows₁)).and_left fit

/-- The last phrase that takes levels. -/
theorem bind_flat (meets : First words' ends' (ends · = true))
    (onwards : ∀ a, P a → Gives (f a) words' ends' True Q) :
    Gives (r >>= f) (words ++ words') ends' fits Q :=
  (first.bind meets onwards).congr rfl (iff_of_eq (and_true fits).symm)

/-- The last phrase that takes words. -/
theorem bind_last (meets : ∀ k, ends' k = true → ends k = true)
    (onwards : ∀ a, P a → Gives (f a) [] ends' True Q) : Gives (r >>= f) words ends' fits Q :=
  (first.bind_flat (.nil meets) onwards).congr (List.append_nil words).symm .rfl

end

/-- A reader that takes the current token. -/
theorem token {f : α → Reader β}
    (takes : ∀ s : Stream, s.current.kind = w.kind → s.current.newlineBefore = false →
      ∃ a, P a ∧ r s = .ok (a, s.advance)) (onwards : ∀ a, P a → Gives (f a) words ends fits Q) :
    Gives (r >>= f) (w :: words) ends fits Q := by
  intro s k kinds ended shows
  obtain ⟨a, holds, read⟩ := takes s shows.kind shows.newlineBefore
  show Answers _ _ (Except.bind (r s) fun result => f result.1 result.2)
  rw [read]
  exact onwards a holds ended (advance_shows shows)

/-- A reader that only looks at the current token. -/
theorem look {f : α → Reader β} {K : Kind → Prop} (first : First words ends K)
    (looks : ∀ s : Stream, K s.current.kind → s.current.newlineBefore = false →
      ∃ a, P a ∧ r s = .ok (a, s)) (onwards : ∀ a, P a → Gives (f a) words ends fits Q) :
    Gives (r >>= f) words ends fits Q := by
  intro s k kinds ended shows
  obtain ⟨kinds', split⟩ := exists_kinds words k kinds
  have here := split ▸ shows
  obtain ⟨a, holds, read⟩ := looks s (here.kind ▸ first k ended) here.newlineBefore
  show Answers _ _ (Except.bind (r s) fun result => f result.1 result.2)
  rw [read]
  exact onwards a holds ended shows

/-! ### Single tokens -/

variable {w : Word} {k : Kind} {K : Kind → Prop} {round : α → Reader (Round α β)}
  {f : Bool → Reader β} {J : List ι → α → Prop} {item : ι → List Word} {state : α} {n : Nat}
  {items : List ι}

theorem advance {f : Unit → Reader β} (onwards : Gives (f ()) words ends fits Q) :
    Gives (Reader.advance >>= f) (w :: words) ends fits Q :=
  token (P := fun _ => True) (fun _ _ _ => ⟨(), trivial, rfl⟩) fun _ _ => onwards

theorem accept (onwards : Gives (f true) words ends fits Q) :
    Gives (Reader.accept w.kind >>= f) (w :: words) ends fits Q := by
  refine token (P := (· = true)) (fun s here _ => ⟨true, rfl, ?_⟩) (fun _ yes => yes ▸ onwards)
  rw [accept_apply, if_pos here]

theorem decline (other : First words ends (· ≠ k)) (onwards : Gives (f false) words ends fits Q) :
    Gives (Reader.accept k >>= f) words ends fits Q := by
  refine look (P := (· = false)) other (fun s here _ => ⟨false, rfl, ?_⟩) (fun _ no => no ▸ onwards)
  rw [accept_apply, if_neg here]

theorem expect {f : Unit → Reader β} (onwards : Gives (f ()) words ends fits Q) :
    Gives (Reader.expect w.kind >>= f) (w :: words) ends fits Q := by
  refine token (P := fun _ => True) (fun s here _ => ⟨(), trivial, ?_⟩) fun _ _ => onwards
  show Except.bind (Reader.accept w.kind s) _ = _
  rw [accept_apply, if_pos here]
  rfl

theorem isAt (here : First words ends (· = k)) (onwards : Gives (f true) words ends fits Q) :
    Gives (Reader.isAt k >>= f) words ends fits Q := by
  refine look (P := (· = true)) here (fun s here _ => ⟨true, rfl, ?_⟩) (fun _ yes => yes ▸ onwards)
  rw [Reader.isAt, decide_eq_true here]

theorem isNotAt (other : First words ends (· ≠ k)) (onwards : Gives (f false) words ends fits Q) :
    Gives (Reader.isAt k >>= f) words ends fits Q := by
  refine look (P := (· = false)) other (fun s here _ => ⟨false, rfl, ?_⟩) (fun _ no => no ▸ onwards)
  rw [Reader.isAt, decide_eq_false here]

theorem current {f : Token → Reader β} (first : First words ends K)
    (onwards : ∀ t : Token, K t.kind ∧ t.newlineBefore = false → Gives (f t) words ends fits Q) :
    Gives (Reader.current >>= f) words ends fits Q :=
  look first (fun s here newline => ⟨s.current, ⟨here, newline⟩, rfl⟩) onwards

/-- The start of a phrase, noted for its stretch of text. -/
theorem start {f : Token → Reader β} (onwards : ∀ t, Gives (f t) words ends fits Q) :
    Gives (Reader.current >>= f) words ends fits Q :=
  current (K := fun _ => True) (fun _ _ => trivial) fun t _ => onwards t

theorem spanFrom {f : Span → Reader β} {start : Span}
    (onwards : ∀ span, Gives (f span) words ends fits Q) :
    Gives (Reader.spanFrom start >>= f) words ends fits Q :=
  look (P := fun _ => True) (K := fun _ => True) (fun _ _ => trivial)
    (fun _ _ _ => ⟨_, trivial, rfl⟩) fun span _ => onwards span

section

variable {f : Identifier → Reader β}
  (onwards : ∀ id : Identifier, id.name = x.text → Gives (f id) words ends fits Q)

include onwards

theorem identifier : Gives (Reader.identifier >>= f) (.name x :: words) ends fits Q := by
  refine token (fun s here _ => ⟨⟨x.text, s.current.span⟩, rfl, ?_⟩) onwards
  obtain ⟨⟨kind, span, newline⟩, rest, stop, left, left_eq⟩ := s
  cases here
  rfl

theorem propertyName : Gives (Reader.propertyName >>= f) (.name x :: words) ends fits Q := by
  refine token (fun s here _ => ⟨⟨x.text, s.current.span⟩, rfl, ?_⟩) onwards
  obtain ⟨⟨kind, span, newline⟩, rest, stop, left, left_eq⟩ := s
  cases here
  rfl

end

theorem endOfStatement {f : Unit → Reader β} (onwards : Gives (f ()) words ends fits Q) :
    Gives (Reader.endOfStatement >>= f) (.mark .semicolon :: words) ends fits Q := by
  refine token (P := fun _ => True) (fun s here _ => ⟨(), trivial, ?_⟩) fun _ _ => onwards
  show Except.bind (Reader.accept (Word.mark .semicolon).kind s) _ = _
  rw [accept_apply, if_pos here]
  rfl

/-! ### Loops -/

theorem rounds_done (h : Gives (round state) words ends fits (Round.IsDone Q)) :
    Gives (rounds round state) words ends fits Q := by
  intro s k kinds ended shows
  have last := h ended shows
  rw [rounds]
  cases read : round state s with
  | error refusal =>
    rw [read] at last
    exact last
  | ok result =>
    obtain ⟨outcome, s'⟩ := result
    rw [read] at last
    cases outcome with
    | more state' => exact last.2.1.elim
    | done b => exact last

/-- A round that goes on takes a word, so the loop may go on too. -/
theorem rounds_more (ends : Kind → Bool) (some : words ≠ [])
    (h : Gives (round state) words ends fits (Round.IsMore P))
    (meets : First words' ends' (ends · = true))
    (onwards : ∀ state', P state' → Gives (rounds round state') words' ends' fits' Q) :
    Gives (rounds round state) (words ++ words') ends' (fits ∧ fits') Q := by
  intro s k kinds ended shows
  rw [List.map_append, List.append_assoc] at shows
  obtain ⟨kinds', split⟩ := exists_kinds words' k kinds
  have one := h (meets k ended) (split ▸ shows)
  rw [rounds]
  cases read : round state s with
  | error refusal =>
    rw [read] at one
    exact ⟨fun both => one.1 both.1, one.2⟩
  | ok result =>
    obtain ⟨outcome, s'⟩ := result
    rw [read] at one
    cases outcome with
    | done b => exact one.2.1.elim
    | more state' =>
      obtain ⟨fit, holds, shows'⟩ := one
      rw [← split] at shows'
      have shorter : s'.left < s.left := by
        have before := shows.left_succ
        have behind := shows'.left_succ
        have taken := List.length_pos_iff.2 some
        simp only [List.length_append, List.length_map] at before behind
        omega
      show Answers _ _ (if s'.left < s.left then rounds round state' s' else _)
      rw [if_pos shorter]
      exact (onwards state' holds ended shows').and_left fit

/-- A loop over phrases that follow each other.  `J` relates the phrases to come to the state,
    and each phrase starts with a token that the one before it may end at. -/
theorem rounds_all (ends' : Kind → Bool) (fitsItem : ι → Prop)
    (opens : ∀ x ∈ items, Opens (item x) ends') (meets : ∀ k, ends k = true → ends' k = true)
    (done : ∀ state, J [] state → Gives (round state) [] ends True (Round.IsDone Q))
    (more : ∀ x xs state, J (x :: xs) state →
      Gives (round state) (item x) ends' (fitsItem x) (Round.IsMore (J xs)))
    (start : J items state) :
    Gives (rounds round state) (items.flatMap item) ends (∀ x ∈ items, fitsItem x) Q := by
  induction items generalizing state with
  | nil => exact (rounds_done (done state start)).congr rfl (by simp)
  | cons x xs ih =>
    rw [List.forall_mem_cons] at opens
    -- what follows is the next phrase, or what ends them all
    have next : First (xs.flatMap item) ends (ends' · = true) := by
      cases xs with
      | nil => exact .nil meets
      | cons y ys => exact ((opens.2 y List.mem_cons_self).append _).first fun _ => id
    exact (rounds_more ends' opens.1.ne_nil (more x xs state start) next fun state' onwards =>
      ih opens.2 onwards).congr List.flatMap_cons List.forall_mem_cons

/-- A loop over phrases with commas between them. -/
theorem rounds_separated (ends : Kind → Bool) (fitsItem : ι → Prop)
    (none : ∀ state, J [] state → Gives (round state) [] ends True (Round.IsDone Q))
    (last : ∀ x state, J [x] state →
      Gives (round state) (item x) ends (fitsItem x) (Round.IsDone Q))
    (more : ∀ x y ys state, J (x :: y :: ys) state → Gives (round state)
      (item x ++ [.mark .comma]) (fun _ => true) (fitsItem x) (Round.IsMore (J (y :: ys))))
    (items : List ι) (start : J items state) :
    Gives (rounds round state) (separated (items.map item)) ends (∀ x ∈ items, fitsItem x) Q := by
  induction items generalizing state with
  | nil => exact (rounds_done (none state start)).congr rfl (by simp)
  | cons x xs ih =>
    cases xs with
    | nil => exact (rounds_done (last x state start)).congr rfl (by simp)
    | cons y ys =>
      refine (rounds_more _ (by simp) (more x y ys state start) (fun _ _ => rfl)
        fun state' onwards => ih onwards).congr ?_ List.forall_mem_cons
      simp [separated]

/-- Items up to a closing mark, with commas between them. -/
theorem commaList {item : Reader α} {close : Mark} {phrase : ι → List Word} {fitsItem : ι → Prop}
    {R : ι → α → Prop} (other : close ≠ .comma)
    (opens : ∀ x ∈ items, Opens (phrase x) (· ≠ .mark close))
    (meets : ends' (.mark close) = true ∧ ends' (.mark .comma) = true)
    (each : ∀ x ∈ items, Gives item (phrase x) ends' (fitsItem x) (R x)) :
    Gives (Reader.commaList close item) (separated (items.map phrase) ++ [.mark close])
      (fun _ => true) (∀ x ∈ items, fitsItem x) (List.Forall₂ R items) := by
  unfold Reader.commaList
  -- the state holds what was read for the items so far, the last one first
  refine bind_flat (P := fun as : List α => List.Forall₂ R items as.reverse)
    (rounds_separated (· = .mark close) fitsItem
      (J := fun (rest : List ι) (as : List α) => ∃ before, items = before ++ rest ∧
        List.Forall₂ R before as.reverse) ?_ ?_ ?_ items ⟨[], rfl, .nil⟩)
    (.cons (by simp))
    fun as all => expect (w := .mark close) (.pure all)
  · rintro as ⟨before, rfl, all⟩
    refine isAt (.nil fun k ended => by simpa using ended) (.pure ?_)
    show List.Forall₂ R _ as.reverse
    simpa using all
  · rintro x as ⟨before, rfl, all⟩
    refine isNotAt ((opens x (by simp)).first fun k => by simp) ?_
    refine (each x (by simp)).bind_last (fun k ended => ?_) fun a holds => ?_
    · have here : k = .mark close := by simpa using ended
      exact here ▸ meets.1
    · refine decline (.nil fun k ended => ?_) (.pure ?_)
      · have here : k = .mark close := by simpa using ended
        simp [here, other]
      · show List.Forall₂ R _ (a :: as).reverse
        rw [List.reverse_cons]
        exact List.rel_append all (.cons holds .nil)
  · rintro x y ys as ⟨before, rfl, all⟩
    refine isNotAt (((opens x (by simp)).append _).first fun k => by simp) ?_
    refine (each x (by simp)).bind_flat (.cons meets.2) fun a holds =>
      accept (w := .mark .comma) (.pure ⟨before ++ [x], by simp, ?_⟩)
    rw [List.reverse_cons]
    exact List.rel_append all (.cons holds .nil)

/-! ### Levels -/

/-- A phrase that counts as a level needs one more level than what is read in its place. -/
theorem level (r r' : Level → Reader α) (none : r (Level.ofDepth 0) = refuse .tooDeep)
    (some : ∀ depth, r (Level.ofDepth (depth + 1)) = r' (Level.ofDepth depth))
    (below : ∀ depth, Gives (r' (Level.ofDepth depth)) words ends (n ≤ depth) P) (depth : Nat) :
    Gives (r (Level.ofDepth depth)) words ends (n + 1 ≤ depth) P := by
  cases depth with
  | zero =>
    intro s k kinds _ _
    rw [none]
    exact ⟨by omega, rfl⟩
  | succ depth =>
    rw [some]
    exact (below depth).congr rfl (by omega)

theorem operand {Q : Expr → Prop}
    (below : ∀ depth, Gives (Grammar.operand (Level.ofDepth depth)) words ends (n ≤ depth) Q)
    (depth : Nat) : Gives (Level.ofDepth depth).operand words ends (n + 1 ≤ depth) Q :=
  level Level.operand Grammar.operand rfl (fun _ => rfl) below depth

theorem expression {Q : Expr → Prop}
    (below : ∀ depth, Gives (Grammar.expression (Level.ofDepth depth)) words ends (n ≤ depth) Q)
    (depth : Nat) : Gives (Level.ofDepth depth).expression words ends (n + 1 ≤ depth) Q :=
  level Level.expression Grammar.expression rfl (fun _ => rfl) below depth

theorem statement {Q : Stmt → Prop}
    (below : ∀ depth, Gives (Grammar.statement (Level.ofDepth depth)) words ends (n ≤ depth) Q)
    (depth : Nat) : Gives (Level.ofDepth depth).statement words ends (n + 1 ≤ depth) Q :=
  level Level.statement Grammar.statement rfl (fun _ => rfl) below depth

end Gives

end Reader

end SourceMachine
