import Mathlib.Data.List.Chain
import Script.Proofs.SourceCoverage

/-!
# Tokens with blanks between them

Tokens can be written with any blanks before, between and after them. Reading gives them back,
provided that there is a blank where two neighbours would run together: between two words, between
two numbers, and between `=` or `!` and what starts with `=`.
-/

set_option autoImplicit false

namespace Script

open Lexer

namespace Token

def IsWord (token : Token) : Prop := token.kind ∈ TokenKind.ident :: TokenKind.keywords

instance (token : Token) : Decidable token.IsWord := inferInstanceAs (Decidable (_ ∈ _))

/-- Written right behind each other, the two tokens would be read as something else. -/
def RunsInto (first second : Token) : Prop :=
  first.IsWord ∧ second.IsWord ∨ first.kind = .int ∧ second.kind = .int ∨
    (first.kind = .assign ∨ first.kind = .bang) ∧ second.written.head? = some '='

instance (first second : Token) : Decidable (first.RunsInto second) :=
  inferInstanceAs (Decidable (_ ∧ _ ∨ _ ∧ _ ∨ _ ∧ _))

/-- Only words start with a name character, and only numbers with a digit. -/
theorem WellSpelled.kind_of_head {token : Token} (spelled : token.WellSpelled) {c : Char}
    (head : token.written.head? = some c) :
    (isNameChar c = true → token.IsWord) ∧ (isDigit c = true → token.kind = .int) := by
  cases spelled with
  | @word chars nonempty named =>
      obtain ⟨d, rest, rfl⟩ := List.exists_cons_of_ne_nil nonempty
      rw [written_word] at head
      cases head
      refine ⟨fun _ => kind_word_mem _, fun digit => ?_⟩
      have notNamed := not_isNameChar_of_isDigit digit
      rw [named c List.mem_cons_self] at notNamed
      cases notNamed
  | @number digits nonempty all =>
      obtain ⟨d, rest, rfl⟩ := List.exists_cons_of_ne_nil nonempty
      rw [written_number] at head
      cases head
      refine ⟨fun named => ?_, fun _ => rfl⟩
      rw [not_isNameChar_of_isDigit (all c List.mem_cons_self)] at named
      cases named
  | quoted _ =>
      rw [written_quoted] at head
      cases head
      exact ⟨fun named => absurd named (by decide), fun digit => absurd digit (by decide)⟩
  | comparison starts =>
      rw [written_comparison starts] at head
      cases head
      rcases starts with rfl | rfl
      all_goals
        exact ⟨fun named => absurd named (by decide), fun digit => absurd digit (by decide)⟩
  | symbol alone =>
      rw [written_symbol] at head
      cases head
      simp [alone.2.2.1, alone.2.2.2]

/-- A token is extended by the start of another one only if the two run together. -/
theorem runsInto_of_extendedBy {first second : Token} (spelled : second.WellSpelled) {c : Char}
    (head : second.written.head? = some c) (extended : first.extendedBy c = true) :
    first.RunsInto second := by
  unfold extendedBy at extended
  split at extended
  · next isWord => exact .inl ⟨isWord, (spelled.kind_of_head head).1 extended⟩
  · split at extended
    · next isNumber => exact .inr (.inl ⟨isNumber, (spelled.kind_of_head head).2 extended⟩)
    · simp only [Bool.and_eq_true, Bool.or_eq_true, decide_eq_true_eq] at extended
      obtain ⟨doubles, rfl⟩ := extended
      exact .inr (.inr ⟨doubles, head⟩)

private theorem extendedBy_of_isBlank (token : Token) {c : Char} (blank : isBlank c = true) :
    token.extendedBy c = false := by
  unfold extendedBy
  rcases isBlank_iff.mp blank with rfl | rfl | rfl | rfl
  all_goals
    split
    · decide
    · split
      · decide
      · simp

end Token

namespace Lexer

structure Spaced where
  gap : List Char
  token : Token

def layout (trailing : List Char) : List Spaced → List Char
  | [] => trailing
  | spaced :: rest => spaced.gap ++ (spaced.token.written ++ layout trailing rest)

/-- There are blanks in the gaps only, and there is one wherever it is needed. -/
structure WellSpaced (items : List Spaced) (trailing : List Char) : Prop where
  spelled : ∀ item ∈ items, item.token.WellSpelled
  blank : ∀ item ∈ items, ∀ c ∈ item.gap, isBlank c = true
  trailing_blank : ∀ c ∈ trailing, isBlank c = true
  apart : items.IsChain fun first second =>
    second.gap = [] → ¬ first.token.RunsInto second.token

namespace WellSpaced

variable {item next : Spaced} {rest : List Spaced} {trailing : List Char}

theorem tail (spacing : WellSpaced (item :: rest) trailing) : WellSpaced rest trailing where
  spelled := fun other member => spacing.spelled other (List.mem_cons_of_mem item member)
  blank := fun other member => spacing.blank other (List.mem_cons_of_mem item member)
  trailing_blank := spacing.trailing_blank
  apart := spacing.apart.tail

/-- What stands behind a token does not extend it. -/
theorem ends (spacing : WellSpaced (item :: rest) trailing) :
    ∀ c ∈ (layout trailing rest).head?, item.token.extendedBy c = false := by
  intro c head
  cases rest with
  | nil =>
      have isTrailing : c ∈ trailing := List.mem_of_head? head
      exact item.token.extendedBy_of_isBlank (spacing.trailing_blank c isTrailing)
  | cons next rest =>
      have member : next ∈ item :: next :: rest := by simp
      cases gap : next.gap with
      | cons d gap' =>
          have isFirst : c = d := by
            rw [layout, gap] at head
            exact (Option.some.inj head).symm
          have isBlank := spacing.blank next member d (by simp [gap])
          exact isFirst ▸ item.token.extendedBy_of_isBlank isBlank
      | nil =>
          have spelled := spacing.spelled next member
          obtain ⟨d, isFirst, _⟩ := spelled.head_written
          have same : d = c := by
            rw [layout, gap, List.nil_append, List.head?_append, isFirst] at head
            exact Option.some.inj head
          subst same
          have separate := (List.isChain_cons_cons.mp spacing.apart).1 gap
          rw [Bool.eq_false_iff]
          exact fun extended => separate (Token.runsInto_of_extendedBy spelled isFirst extended)

end WellSpaced

private theorem tokens_of_blanks {gap : List Char} (blank : ∀ c ∈ gap, isBlank c = true)
    (rest : List Char) : tokens (gap ++ rest) = tokens rest := by
  induction gap with
  | nil => rfl
  | cons c gap ih =>
      obtain ⟨blankFirst, blankRest⟩ := List.forall_mem_cons.mp blank
      rw [List.cons_append, tokens_blank _ blankFirst, ih blankRest]

private theorem tokens_layout {items : List Spaced} {trailing : List Char}
    (spacing : WellSpaced items trailing) :
    tokens (layout trailing items) = items.map Spaced.token := by
  induction items with
  | nil =>
      have blank := tokens_of_blanks spacing.trailing_blank []
      rwa [List.append_nil, tokens_nil] at blank
  | cons item rest ih =>
      have spelled := spacing.spelled item List.mem_cons_self
      rw [layout, tokens_of_blanks (spacing.blank item List.mem_cons_self),
        tokens_written_append spelled spacing.ends, ih spacing.tail, List.map_cons]

/-- Reading undoes writing, whatever the spacing: the calls give the tokens that were written one
after the other, and then the end of input for ever. -/
theorem call_of_layout {source : String} {items : List Spaced} {trailing : List Char}
    (spacing : WellSpaced items trailing) (written : source.toList = layout trailing items) :
    tokens source.toList = items.map Spaced.token ∧
      ∀ number, call source.toList number =
        (items.map Spaced.token)[number]?.getD .endOfInput := by
  have read : tokens source.toList = items.map Spaced.token := by
    rw [written, tokens_layout spacing]
  refine ⟨read, fun number => ?_⟩
  rw [call_eq_getD, read]

def tightSample : List Spaced :=
  [⟨[' '], ⟨.kwLet, "let"⟩⟩, ⟨['\t', '\n'], ⟨.ident, "x"⟩⟩, ⟨[], ⟨.equal, "=="⟩⟩,
    ⟨[], ⟨.str, "a b"⟩⟩, ⟨[], ⟨.bang, "!"⟩⟩, ⟨[], ⟨.illegal, "é"⟩⟩, ⟨[], ⟨.assign, "="⟩⟩,
    ⟨['\r'], ⟨.equal, "=="⟩⟩, ⟨[], ⟨.int, "01"⟩⟩]

theorem call_of_layout_tight :
    WellSpaced tightSample [' '] ∧
      " let\t\nx==\"a b\"!é=\r==01 ".toList = layout [' '] tightSample ∧
      tokens " let\t\nx==\"a b\"!é=\r==01 ".toList = tightSample.map Spaced.token := by
  have spelled : ∀ item ∈ tightSample, item.token.WellSpelled := by
    have name := Token.WellSpelled.word (List.cons_ne_nil 'x' []) (List.all_eq_true.mp rfl)
    have text := @Token.WellSpelled.quoted ['a', ' ', 'b'] (by simp)
    have number := Token.WellSpelled.number (List.cons_ne_nil '0' ['1']) (List.all_eq_true.mp rfl)
    have foreign := @Token.WellSpelled.symbol 'é' (by decide)
    simp only [tightSample, List.forall_mem_cons]
    exact ⟨Token.wellSpelled_of_spelling rfl, name, Token.wellSpelled_of_spelling rfl, text,
      Token.wellSpelled_of_spelling rfl, foreign, Token.wellSpelled_of_spelling rfl,
      Token.wellSpelled_of_spelling rfl, number, nofun⟩
  have allBlank : (tightSample.all fun item => item.gap.all isBlank) = true := rfl
  have blank : ∀ item ∈ tightSample, ∀ c ∈ item.gap, isBlank c = true :=
    fun item member => List.all_eq_true.mp (List.all_eq_true.mp allBlank item member)
  have spacing : WellSpaced tightSample [' '] :=
    ⟨spelled, blank, List.all_eq_true.mp rfl, by decide⟩
  have written : " let\t\nx==\"a b\"!é=\r==01 ".toList = layout [' '] tightSample := by decide
  exact ⟨spacing, written, (call_of_layout spacing written).1⟩

end Lexer

end Script
