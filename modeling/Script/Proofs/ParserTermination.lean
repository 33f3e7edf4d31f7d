import Mathlib.Data.List.Chain
import Mathlib.Logic.Relation
import Script.Proofs.Readings
import Script.Proofs.SourceCoverage

/-!
# Parsing comes to an end

Every plan goes forward: what it starts has no more tokens ahead than it had itself, and has fewer
unless it is a construct of a lower stage. This is read off the plans once, and the rest follows by
induction on the rank that combines both: every reading has exactly one ending, readings are nested
only so deep, and a construct that comes up again within itself has a token less ahead. At the end
of the input there is no token to spare, so that nothing comes up again there.
-/

set_option autoImplicit false

namespace Script

/-! ## Progress -/

/-- The place of a construct among those that may start each other at one and the same token. -/
def Construct.stage : Construct → Nat
  | operand | continuation | moreParameters => 0
  | expressionFrom | parameters => 1
  | expression | statement => 2
  | moreExpressions | pairs | block | program => 3
  | expressions => 4

private theorem Construct.stage_le (construct : Construct) : construct.stage ≤ 4 := by
  cases construct <;> decide

namespace Reading

def ahead : {construct : Construct} → Reading construct → List Token
  | _, statement token rest | _, expressionFrom _ token rest | _, operand token rest =>
      token :: rest
  | _, program tokens | _, block tokens | _, expression _ tokens | _, continuation _ _ tokens
  | _, expressions _ tokens | _, moreExpressions _ tokens | _, pairs tokens
  | _, parameters tokens | _, moreParameters tokens => tokens

/-- The tokens that a reading may leave. A construct that is known by its first token takes it. -/
def later : {construct : Construct} → Reading construct → List Token
  | _, statement _ rest | _, expressionFrom _ _ rest | _, operand _ rest => rest
  | _, program tokens | _, block tokens | _, expression _ tokens | _, continuation _ _ tokens
  | _, expressions _ tokens | _, moreExpressions _ tokens | _, pairs tokens
  | _, parameters tokens | _, moreParameters tokens => tokens

variable {construct outerConstruct : Construct}

def rank (reading : Reading construct) : Nat := 5 * reading.ahead.length + construct.stage

structure Below (inner : Reading construct) (outer : Reading outerConstruct) : Prop where
  suffix : inner.ahead <:+ outer.ahead
  rank_lt : inner.rank < outer.rank

theorem below_of_stage {inner : Reading construct} {outer : Reading outerConstruct}
    (same : inner.ahead = outer.ahead) (lower : construct.stage < outerConstruct.stage) :
    inner.Below outer := by
  refine ⟨same ▸ List.suffix_rfl, ?_⟩
  rw [rank, rank, same]
  omega

theorem below_of_cons {inner : Reading construct} {outer : Reading outerConstruct} {token : Token}
    {rest : List Token} (taken : token :: rest <:+ outer.ahead) (suffix : inner.ahead <:+ rest) :
    inner.Below outer := by
  refine ⟨suffix.trans ((List.suffix_cons token rest).trans taken), ?_⟩
  have shorter := taken.length_le
  have further := suffix.length_le
  have bounded := construct.stage_le
  rw [List.length_cons] at shorter
  unfold rank
  omega

end Reading

namespace Plan

variable {α : Type} {outerConstruct : Construct}

/-- `plan.Advances outer current faulty`: with `current` left, what the plan starts on behalf of
`outer` is further than `outer`, and no more is left than there was. A tree is missing only after a
fault; `faulty` says that one was met before. -/
def Advances (outer : Reading outerConstruct) : Plan α → List Token → Prop → Prop
  | .stop tree errors rest, current, faulty =>
      rest <:+ current ∧ (tree = none → faulty ∨ errors ≠ [])
  | .start reading next, current, faulty =>
      reading.later <:+ current ∧ reading.Below outer ∧
        ∀ tree rest, rest <:+ reading.later →
          (next tree rest).Advances outer rest (faulty ∨ tree = none)

variable {outer : Reading outerConstruct} {current : List Token} {faulty : Prop}

theorem Advances.mono {plan : Plan α} {smaller : List Token}
    (advances : plan.Advances outer smaller faulty) (suffix : smaller <:+ current) :
    plan.Advances outer current faulty := by
  cases plan with
  | stop tree errors rest => exact ⟨List.IsSuffix.trans advances.1 suffix, advances.2⟩
  | start reading next =>
      obtain ⟨leaves, below, following⟩ := advances
      exact ⟨leaves.trans suffix, below, following⟩

theorem advances_done {tree : α} {rest : List Token} (suffix : rest <:+ current) :
    (done tree rest).Advances outer current faulty :=
  ⟨suffix, by simp⟩

theorem advances_failed {error : SyntaxError} {rest : List Token} (suffix : rest <:+ current) :
    (failed error rest : Plan α).Advances outer current faulty :=
  ⟨suffix, by simp⟩

/-- A plan may start a reading that is further than its own, and go on with what that one leaves. -/
theorem advances_need {construct : Construct} {reading : Reading construct}
    {next : construct.Tree → List Token → Plan α} (leaves : reading.later <:+ current)
    (below : reading.Below outer)
    (following : ∀ tree rest, rest <:+ reading.later →
      ∀ {met : Prop}, (next tree rest).Advances outer rest met) :
    (need reading next).Advances outer current faulty := by
  refine ⟨leaves, below, ?_⟩
  intro tree rest suffix
  cases tree with
  | none => exact ⟨List.suffix_rfl, by simp⟩
  | some tree => exact following tree rest suffix

/-- The tree of the last reading is all that is needed. -/
theorem advances_last {construct : Construct} {reading : Reading construct}
    {tree : construct.Tree → α} (leaves : reading.later <:+ current) (below : reading.Below outer) :
    (need reading fun last rest => done (tree last) rest).Advances outer current faulty :=
  advances_need leaves below fun _ _ _ => advances_done List.suffix_rfl

theorem advances_expect {kind : TokenKind} {tokens : List Token}
    {next : Token → List Token → Plan α} (suffix : tokens <:+ current)
    (following : ∀ token rest, token :: rest <:+ current →
      (next token rest).Advances outer rest faulty) :
    (expect kind tokens next).Advances outer current faulty := by
  cases tokens with
  | nil => exact advances_failed suffix
  | cons token rest =>
      rw [expect]
      split
      · exact (following token rest suffix).mono ((List.suffix_cons token rest).trans suffix)
      · exact advances_failed suffix

end Plan

namespace Reading

open Script.Parser (headKind skipSemicolon)

theorem suffix_of_taken {token : Token} {rest tokens : List Token}
    (taken : token :: rest <:+ tokens) : rest <:+ tokens :=
  (List.suffix_cons token rest).trans taken

private theorem skipSemicolon_suffix (tokens : List Token) : skipSemicolon tokens <:+ tokens := by
  unfold skipSemicolon
  split
  · exact List.suffix_rfl
  · split
    · exact List.suffix_cons _ _
    · exact List.suffix_rfl

private theorem statement_advances (token : Token) (rest : List Token) :
    (statement token rest).plan.Advances (statement token rest) rest False := by
  have value {rest' : List Token} (suffix : rest' <:+ rest) :
      (expression .lowest rest').Below (statement token rest) :=
    below_of_cons List.suffix_rfl suffix
  rw [plan]
  split
  · refine Plan.advances_expect List.suffix_rfl fun name rest₁ suffix₁ => ?_
    refine Plan.advances_expect List.suffix_rfl fun equals rest₂ suffix₂ => ?_
    have suffix : rest₂ <:+ rest :=
      (suffix_of_taken suffix₂).trans (suffix_of_taken suffix₁)
    exact Plan.advances_need List.suffix_rfl (value suffix) fun _ rest₃ _ =>
      Plan.advances_done (skipSemicolon_suffix rest₃)
  · exact Plan.advances_need List.suffix_rfl (value List.suffix_rfl) fun _ rest' _ =>
      Plan.advances_done (skipSemicolon_suffix rest')
  · exact Plan.advances_need List.suffix_rfl (below_of_stage rfl (by decide)) fun _ rest' _ =>
      Plan.advances_done (skipSemicolon_suffix rest')

private theorem operand_advances (token : Token) (rest : List Token) :
    (operand token rest).plan.Advances (operand token rest) rest False := by
  have inside {construct : Construct} {inner : Reading construct} (suffix : inner.ahead <:+ rest) :
      inner.Below (operand token rest) :=
    below_of_cons List.suffix_rfl suffix
  rw [plan]
  cases token.kind with
  | ident | str | kwTrue | kwFalse => exact Plan.advances_done List.suffix_rfl
  | int =>
      dsimp only
      split
      · exact Plan.advances_done List.suffix_rfl
      · exact Plan.advances_failed List.suffix_rfl
  | bang | minus | openBracket | openBrace =>
      exact Plan.advances_last List.suffix_rfl (inside List.suffix_rfl)
  | openParen =>
      refine Plan.advances_need List.suffix_rfl (inside List.suffix_rfl) fun _ rest₁ _ => ?_
      exact Plan.advances_expect List.suffix_rfl fun _ _ _ => Plan.advances_done List.suffix_rfl
  | kwIf =>
      refine Plan.advances_expect List.suffix_rfl fun _ rest₁ taken₁ => ?_
      have suffix₁ := suffix_of_taken taken₁
      refine Plan.advances_need List.suffix_rfl (inside suffix₁) fun _ rest₂ left₂ => ?_
      refine Plan.advances_expect List.suffix_rfl fun _ rest₃ taken₃ => ?_
      refine Plan.advances_expect List.suffix_rfl fun _ rest₄ taken₄ => ?_
      have suffix₄ : rest₄ <:+ rest :=
        (suffix_of_taken taken₄).trans
          ((suffix_of_taken taken₃).trans (List.IsSuffix.trans left₂ suffix₁))
      refine Plan.advances_need List.suffix_rfl (inside suffix₄) fun _ rest₅ left₅ => ?_
      intro met
      split
      · refine Plan.advances_expect (List.drop_suffix 1 rest₅) fun _ rest₆ taken₆ => ?_
        have suffix₆ : rest₆ <:+ rest :=
          (suffix_of_taken taken₆).trans (List.IsSuffix.trans left₅ suffix₄)
        exact Plan.advances_last List.suffix_rfl (inside suffix₆)
      · exact Plan.advances_done List.suffix_rfl
  | kwFn =>
      refine Plan.advances_expect List.suffix_rfl fun _ rest₁ taken₁ => ?_
      have suffix₁ := suffix_of_taken taken₁
      refine Plan.advances_need List.suffix_rfl (inside suffix₁) fun _ rest₂ left₂ => ?_
      refine Plan.advances_expect List.suffix_rfl fun _ rest₃ taken₃ => ?_
      have suffix₃ : rest₃ <:+ rest :=
        (suffix_of_taken taken₃).trans (List.IsSuffix.trans left₂ suffix₁)
      exact Plan.advances_last List.suffix_rfl (inside suffix₃)
  | _ => exact Plan.advances_failed List.suffix_rfl

private theorem continuation_advances (minimum : Precedence) (left : Expr) (tokens : List Token) :
    (continuation minimum left tokens).plan.Advances (continuation minimum left tokens) tokens
      False := by
  cases tokens with
  | nil => exact Plan.advances_done List.suffix_rfl
  | cons token rest =>
      have inside {construct : Construct} {inner : Reading construct}
          (suffix : inner.ahead <:+ rest) :
          inner.Below (continuation minimum left (token :: rest)) :=
        below_of_cons List.suffix_rfl suffix
      have behind := List.suffix_cons token rest
      rw [plan]
      split
      · cases BinaryOp.ofKind? token.kind with
        | some op =>
            refine Plan.advances_need behind (inside List.suffix_rfl) fun _ rest' left' => ?_
            exact Plan.advances_last List.suffix_rfl (inside left')
        | none =>
            dsimp only
            split
            · refine Plan.advances_need behind (inside List.suffix_rfl) fun _ rest' left' => ?_
              exact Plan.advances_last List.suffix_rfl (inside left')
            · split
              · refine Plan.advances_need behind (inside List.suffix_rfl) fun _ rest₁ left₁ => ?_
                refine Plan.advances_expect List.suffix_rfl fun _ rest₂ taken₂ => ?_
                have suffix₂ : rest₂ <:+ rest := (suffix_of_taken taken₂).trans left₁
                exact Plan.advances_last List.suffix_rfl (inside suffix₂)
              · exact Plan.advances_done List.suffix_rfl
      · exact Plan.advances_done List.suffix_rfl

private theorem moreExpressions_advances (bracket : Bracket) (tokens : List Token) :
    (moreExpressions bracket tokens).plan.Advances (moreExpressions bracket tokens) tokens
      False := by
  rw [plan]
  refine Plan.advances_need List.suffix_rfl (below_of_stage rfl (by decide)) fun _ rest left => ?_
  cases rest with
  | nil => exact Plan.advances_failed List.suffix_rfl
  | cons token rest =>
      split
      · exact Plan.advances_last (List.suffix_cons token rest) (below_of_cons left List.suffix_rfl)
      · exact Plan.advances_expect List.suffix_rfl fun _ _ _ => Plan.advances_done List.suffix_rfl

private theorem pairs_advances (tokens : List Token) :
    (pairs tokens).plan.Advances (pairs tokens) tokens False := by
  rw [plan]
  split
  · exact Plan.advances_done (List.drop_suffix 1 tokens)
  · refine Plan.advances_need List.suffix_rfl (below_of_stage rfl (by decide))
      fun _ rest₁ left₁ => ?_
    refine Plan.advances_expect List.suffix_rfl fun colon rest₂ taken₂ => ?_
    have inside {construct : Construct} {inner : Reading construct}
        (suffix : inner.ahead <:+ rest₂) : inner.Below (pairs tokens) :=
      below_of_cons (List.IsSuffix.trans taken₂ left₁) suffix
    refine Plan.advances_need List.suffix_rfl (inside List.suffix_rfl) fun _ rest₃ left₃ => ?_
    split
    · exact Plan.advances_done (List.drop_suffix 1 rest₃)
    · refine Plan.advances_expect List.suffix_rfl fun _ rest₄ taken₄ => ?_
      have suffix₄ : rest₄ <:+ rest₂ := (suffix_of_taken taken₄).trans left₃
      exact Plan.advances_last List.suffix_rfl (inside suffix₄)

private theorem moreParameters_advances (tokens : List Token) :
    (moreParameters tokens).plan.Advances (moreParameters tokens) tokens False := by
  rw [plan]
  split
  · refine Plan.advances_expect (List.drop_suffix 1 tokens) fun _ rest taken => ?_
    exact Plan.advances_last List.suffix_rfl (below_of_cons taken List.suffix_rfl)
  · exact Plan.advances_expect List.suffix_rfl fun _ _ _ => Plan.advances_done List.suffix_rfl

/-- What a reading starts is further than the reading itself. -/
theorem plan_advances {construct : Construct} (reading : Reading construct) :
    reading.plan.Advances reading reading.later False := by
  cases reading with
  | program tokens =>
      cases tokens with
      | nil => exact Plan.advances_done List.suffix_rfl
      | cons token rest =>
          refine ⟨List.suffix_cons token rest, below_of_stage rfl (by decide), ?_⟩
          intro _ rest' left
          exact Plan.advances_last List.suffix_rfl (below_of_cons List.suffix_rfl left)
  | block tokens =>
      cases tokens with
      | nil => exact ⟨List.suffix_rfl, by simp⟩
      | cons token rest =>
          rw [plan]
          split
          · exact Plan.advances_done (List.suffix_cons token rest)
          · refine ⟨List.suffix_cons token rest, below_of_stage rfl (by decide), ?_⟩
            intro _ rest' left
            exact Plan.advances_last List.suffix_rfl (below_of_cons List.suffix_rfl left)
  | statement token rest => exact statement_advances token rest
  | expression minimum tokens =>
      cases tokens with
      | nil => exact Plan.advances_failed List.suffix_rfl
      | cons token rest =>
          exact Plan.advances_last (List.suffix_cons token rest) (below_of_stage rfl (by decide))
  | expressionFrom minimum token rest =>
      refine Plan.advances_need List.suffix_rfl (below_of_stage rfl (by decide)) fun _ _ left => ?_
      exact Plan.advances_last List.suffix_rfl (below_of_cons List.suffix_rfl left)
  | operand token rest => exact operand_advances token rest
  | continuation minimum left tokens => exact continuation_advances minimum left tokens
  | expressions bracket tokens =>
      rw [plan]
      split
      · exact Plan.advances_done (List.drop_suffix 1 tokens)
      · exact Plan.advances_last List.suffix_rfl (below_of_stage rfl (by decide))
  | moreExpressions bracket tokens => exact moreExpressions_advances bracket tokens
  | pairs tokens => exact pairs_advances tokens
  | parameters tokens =>
      rw [plan]
      split
      · exact Plan.advances_done (List.drop_suffix 1 tokens)
      · refine Plan.advances_expect List.suffix_rfl fun _ rest taken => ?_
        exact Plan.advances_last List.suffix_rfl (below_of_cons taken List.suffix_rfl)
  | moreParameters tokens => exact moreParameters_advances tokens

end Reading

/-! ## Every reading ends -/

/-- A plan leaves no more tokens than it finds, and gives no tree only after a fault. -/
theorem Plan.Follows.leaves {α : Type} {plan : Plan α} {ending : Ending α}
    (follows : plan.Follows ending) {outerConstruct : Construct} {outer : Reading outerConstruct}
    {current : List Token} {faulty : Prop} (advances : plan.Advances outer current faulty) :
    ending.rest <:+ current ∧ (ending.tree = none → faulty ∨ ending.errors ≠ []) := by
  induction follows generalizing outerConstruct outer current faulty with
  | stop => exact advances
  | @start _ _ reading next first last _ _ firstLeaves lastLeaves =>
      obtain ⟨leaves, _, following⟩ := advances
      obtain ⟨firstRest, firstFault⟩ := firstLeaves reading.plan_advances
      obtain ⟨lastRest, lastFault⟩ := lastLeaves (following _ _ firstRest)
      refine ⟨lastRest.trans (firstRest.trans leaves), ?_⟩
      intro missing
      simp only [Ending.behind, ne_eq, List.append_eq_nil_iff, not_and_or]
      rcases lastFault missing with (before | malformed) | met
      · exact .inl before
      · exact .inr (.inl ((firstFault malformed).resolve_left id))
      · exact .inr (.inr met)

/-- What the parser gives is what the rules give, provided that this holds further on. -/
theorem Plan.follows_result {α : Type} (plan : Plan α) {outerConstruct : Construct}
    {outer : Reading outerConstruct} {current : List Token} {faulty : Prop}
    (advances : plan.Advances outer current faulty)
    (further : ∀ {construct : Construct} (inner : Reading construct), inner.Below outer →
      inner.Ends inner.finish) :
    plan.Follows plan.result := by
  induction plan generalizing current faulty with
  | stop tree errors rest => exact .stop
  | start reading next ih =>
      obtain ⟨_, below, following⟩ := advances
      have ends := further reading below
      have left := (Plan.Follows.leaves ends reading.plan_advances).1
      exact .start ends (ih _ _ (following _ _ left))

namespace Reading

variable {construct : Construct}

/-- Every reading ends, by induction on the tokens ahead and the stage. -/
theorem ends_finish (reading : Reading construct) : reading.Ends reading.finish := by
  induction bound : reading.rank using Nat.strong_induction_on generalizing construct with
  | _ rank ih =>
      rw [finish_eq_result]
      refine reading.plan.follows_result reading.plan_advances fun inner below => ?_
      exact ih inner.rank (bound ▸ below.rank_lt) inner rfl

/-- The rules determine what a reading ends with: it is what the parser gives. -/
theorem ends_iff {reading : Reading construct} {ending : Ending construct.Tree} :
    reading.Ends ending ↔ ending = reading.finish := by
  constructor
  · intro ends
    exact Plan.Follows.unique ends reading.ends_finish
  · rintro rfl
    exact reading.ends_finish

/-! ## Readings within readings -/

theorem Below.trans {innerConstruct outerConstruct : Construct} {inner : Reading innerConstruct}
    {middle : Reading construct} {outer : Reading outerConstruct} (below : inner.Below middle)
    (below' : middle.Below outer) : inner.Below outer :=
  ⟨below.suffix.trans below'.suffix, below.rank_lt.trans below'.rank_lt⟩

abbrev Any : Type := (construct : Construct) × Reading construct

end Reading

inductive Plan.Starts {α : Type} : Plan α → Reading.Any → Prop where
  | first {construct : Construct} {reading : Reading construct}
      {next : Option construct.Tree → List Token → Plan α} :
      Starts (.start reading next) ⟨construct, reading⟩
  | after {construct : Construct} {reading : Reading construct}
      {next : Option construct.Tree → List Token → Plan α} {ending : Ending construct.Tree}
      {inner : Reading.Any} :
      reading.Ends ending → Starts (next ending.tree ending.rest) inner →
      Starts (.start reading next) inner

private theorem Plan.Starts.below_outer {α : Type} {plan : Plan α} {inner : Reading.Any}
    (starts : plan.Starts inner) {outerConstruct : Construct} {outer : Reading outerConstruct}
    {current : List Token} {faulty : Prop} (advances : plan.Advances outer current faulty) :
    inner.2.Below outer := by
  induction starts generalizing current faulty with
  | first => exact advances.2.1
  | @after _ reading _ _ _ ends _ ih =>
      have left := (Plan.Follows.leaves ends reading.plan_advances).1
      exact ih (advances.2.2 _ _ left)

/-- No fault is lost that is met on the way. -/
theorem Plan.Starts.errors_infix {α : Type} {plan : Plan α} {inner : Reading.Any}
    (starts : plan.Starts inner) {ending : Ending α} (follows : plan.Follows ending) :
    inner.2.finish.errors <:+: ending.errors := by
  induction starts generalizing ending with
  | first =>
      cases follows with
      | start first _ =>
          cases Reading.ends_iff.mp first
          exact (List.prefix_append _ _).isInfix
  | after ends _ ih =>
      cases follows with
      | start first last =>
          cases Plan.Follows.unique ends first
          exact (ih last).trans (List.suffix_append _ _).isInfix

namespace Reading.Any

/-- `outer.Starts inner`: reading `outer` reads `inner` on the way. -/
def Starts (outer inner : Reading.Any) : Prop := outer.2.plan.Starts inner

/-- What a reading starts on its way is further than the reading itself. -/
theorem Starts.below {outer inner : Reading.Any} (starts : outer.Starts inner) :
    inner.2.Below outer.2 :=
  Plan.Starts.below_outer starts outer.2.plan_advances

theorem below_of_transGen {outer inner : Reading.Any}
    (nested : Relation.TransGen Starts outer inner) : inner.2.Below outer.2 := by
  induction nested with
  | single starts => exact starts.below
  | tail _ starts ih => exact starts.below.trans ih

private theorem suffix_of_reflTransGen {outer inner : Reading.Any}
    (nested : Relation.ReflTransGen Starts outer inner) : inner.2.ahead <:+ outer.2.ahead := by
  rcases Relation.reflTransGen_iff_eq_or_transGen.mp nested with rfl | nested
  · exact List.suffix_rfl
  · exact (below_of_transGen nested).suffix

private theorem errors_infix_of_reflTransGen {outer inner : Reading.Any}
    (nested : Relation.ReflTransGen Starts outer inner) :
    inner.2.finish.errors <:+: outer.2.finish.errors := by
  induction nested with
  | refl => exact List.infix_rfl
  | @tail middle inner _ starts ih =>
      exact (Plan.Starts.errors_infix starts middle.2.ends_finish).trans ih

/-- Between the start of one reading and the start of the other tokens are taken, at least one. -/
def Passes (outer inner : Reading.Any) : Prop :=
  ∃ taken, taken ≠ [] ∧ outer.2.ahead = taken ++ inner.2.ahead ∧
    ∀ token ∈ taken, token.kind ≠ .eof

/-- A construct that comes up again within itself is read from a later token. -/
theorem passes_of_transGen {outer inner : Reading.Any}
    (nested : Relation.TransGen Starts outer inner) (same : inner.1 = outer.1)
    (proper : ∀ token ∈ outer.2.ahead, token.kind ≠ .eof) : outer.Passes inner := by
  have below := below_of_transGen nested
  obtain ⟨taken, split⟩ := below.suffix
  refine ⟨taken, ?_, split.symm, ?_⟩
  · rintro rfl
    have lower := below.rank_lt
    have sameStage := congrArg Construct.stage same
    rw [Reading.rank, Reading.rank, ← split, sameStage] at lower
    exact absurd lower (Nat.lt_irrefl _)
  · intro token member
    exact proper token (split ▸ List.mem_append_left _ member)

private theorem length_le_rank_of_isChain (nested : List Reading.Any) (outer : Reading.Any)
    (chain : (outer :: nested).IsChain Starts) : nested.length ≤ outer.2.rank := by
  induction nested generalizing outer with
  | nil => exact Nat.zero_le _
  | cons inner nested ih =>
      obtain ⟨starts, chain⟩ := List.isChain_cons_cons.mp chain
      have deeper := ih inner chain
      have lower := starts.below.rank_lt
      rw [List.length_cons]
      omega

end Reading.Any

/-! ## The end of the input -/

namespace Reading

private theorem errors_need_ne_nil {α : Type} {construct : Construct} {reading : Reading construct}
    {next : construct.Tree → List Token → Plan α} (faulty : reading.finish.errors ≠ []) :
    (Plan.need reading next).result.errors ≠ [] := by
  simp [Plan.need, Plan.result, Ending.behind, faulty]

/-- Only a program and what continues an expression may be empty. Any other construct is unfinished
when the input ends, and that is a fault. -/
theorem errors_ne_nil_of_ahead {construct : Construct} (reading : Reading construct)
    (ended : reading.ahead = []) (whole : construct ≠ .program)
    (optional : construct ≠ .continuation) : reading.finish.errors ≠ [] := by
  have noOperand (minimum : Precedence) : (expression minimum []).finish.errors ≠ [] := by
    rw [finish_eq_result]
    exact List.cons_ne_nil _ _
  have noElement (bracket : Bracket) : (moreExpressions bracket []).finish.errors ≠ [] := by
    rw [finish_eq_result]
    exact errors_need_ne_nil (noOperand .lowest)
  cases reading with
  | program | continuation => contradiction
  | statement | expressionFrom | operand => cases ended
  | expression minimum tokens =>
      cases ended
      exact noOperand minimum
  | expressions bracket tokens =>
      cases ended
      rw [finish_eq_result]
      cases bracket <;> exact errors_need_ne_nil (noElement _)
  | moreExpressions bracket tokens =>
      cases ended
      exact noElement bracket
  | pairs tokens =>
      cases ended
      rw [finish_eq_result]
      exact errors_need_ne_nil (noOperand .lowest)
  | block | parameters | moreParameters =>
      cases ended
      rw [finish_eq_result]
      exact List.cons_ne_nil _ _

end Reading

/-- Parsing ends on every source, well formed or not. The rules give one ending, with every token
taken, and the readings on the way are nested only so deep. Each of them ends as the parser says,
and when the same construct comes up again within it, at least one token was passed. At the end of
the input nothing can come up again, and whatever is unfinished there is a fault, of which the
source as a whole is told. -/
theorem Program.parse_ends (source : String) :
    let tokens := Lexer.tokens source.toList
    let whole : Reading.Any := ⟨.program, .program tokens⟩
    (∀ ending, whole.2.Ends ending ↔
      ending = ⟨some (parse source).1.statements, [], (parse source).2⟩) ∧
    (∀ nested, (whole :: nested).IsChain Reading.Any.Starts →
      nested.length ≤ 5 * tokens.length + 3) ∧
    ∀ reading, Relation.ReflTransGen Reading.Any.Starts whole reading →
      (∀ ending, reading.2.Ends ending ↔ ending = reading.2.finish) ∧
      (∀ inner, Relation.TransGen Reading.Any.Starts reading inner → inner.1 = reading.1 →
        reading.Passes inner) ∧
      reading.2.finish.rest <:+ reading.2.later ∧
      (reading.2.finish.tree = none → reading.2.finish.errors ≠ []) ∧
      (reading.2.ahead = [] → reading.1 ≠ .program → reading.1 ≠ .continuation →
        reading.2.finish.errors ≠ []) ∧
      reading.2.finish.errors <:+: (parse source).2 := by
  intro tokens whole
  refine ⟨fun ending => Reading.ends_iff, ?_, ?_⟩
  · intro nested chain
    exact Reading.Any.length_le_rank_of_isChain nested whole chain
  · intro reading nested
    have leaves := Plan.Follows.leaves reading.2.ends_finish reading.2.plan_advances
    refine ⟨fun ending => Reading.ends_iff, ?_, leaves.1, ?_, ?_, ?_⟩
    · intro inner again same
      refine Reading.Any.passes_of_transGen again same fun token member => ?_
      have ofSource := (Reading.Any.suffix_of_reflTransGen nested).subset member
      exact Lexer.tokens_kind_ne_eof ofSource
    · intro malformed
      exact (leaves.2 malformed).resolve_left id
    · exact reading.2.errors_ne_nil_of_ahead
    · exact Reading.Any.errors_infix_of_reflTransGen nested

end Script
