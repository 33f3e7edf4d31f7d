import Mathlib.Data.List.Induction
import Script.Eval.Program

/-!
# Map literals and looking values up in maps

The pairs of a map literal are evaluated one after the other, each key before its value. Of several
pairs whose keys have one digest the last one counts: the map holds its key and its value, and
indexing gives its value. A key that cannot be one ends the evaluation right away.
-/

set_option autoImplicit false

namespace Script

/-! ## Insertions one after the other -/

namespace Assoc

variable {κ δ α : Type} (digest : κ → δ)

/-- The pair is among the pairs, and no later one has the digest of its key. -/
def IsLast (pairs : List (κ × α)) (pair : κ × α) : Prop :=
  ∃ earlier later, pairs = earlier ++ pair :: later ∧
    ∀ other ∈ later, digest other.1 ≠ digest pair.1

def insertAll [DecidableEq δ] (entries pairs : List (κ × α)) : List (κ × α) :=
  pairs.foldl (fun entries pair => insert digest pair.1 pair.2 entries) entries

variable {digest} {entries pairs : List (κ × α)} {pair last : κ × α}

theorem isLast_nil : ¬ IsLast digest [] pair := by
  rintro ⟨earlier, later, split, _⟩
  simp at split

/-- A pair that is added is a last one, and hides an earlier one with the same digest. -/
theorem isLast_append_singleton :
    IsLast digest (pairs ++ [pair]) last ↔
      last = pair ∨ digest last.1 ≠ digest pair.1 ∧ IsLast digest pairs last := by
  constructor
  · rintro ⟨earlier, later, split, unmatched⟩
    rcases List.eq_nil_or_concat later with rfl | ⟨between, other, rfl⟩
    · obtain ⟨_, same⟩ := List.append_inj' split rfl
      exact .inl (List.singleton_inj.mp same).symm
    · rw [List.concat_eq_append, ← List.cons_append, ← List.append_assoc] at split
      obtain ⟨rfl, same⟩ := List.append_inj' split rfl
      obtain rfl := List.singleton_inj.mp same
      have hidden := unmatched pair (by simp)
      refine .inr ⟨hidden.symm, earlier, between, rfl, fun other member => ?_⟩
      exact unmatched other (by simp [member])
  · rintro (rfl | ⟨different, earlier, later, rfl, unmatched⟩)
    · exact ⟨pairs, [], rfl, nofun⟩
    · refine ⟨earlier, later ++ [pair], by simp, fun other member => ?_⟩
      rcases List.mem_append.mp member with inside | isPair
      · exact unmatched other inside
      · rw [List.mem_singleton.mp isPair]
        exact different.symm

variable [DecidableEq δ]

theorem insertAll_append_singleton :
    insertAll digest entries (pairs ++ [pair]) =
      insert digest pair.1 pair.2 (insertAll digest entries pairs) := by
  rw [insertAll, List.foldl_append]
  rfl

/-- With distinct digests, insertion puts the pair in and takes out what has its digest. -/
theorem mem_insert_iff (distinct : (entries.map fun entry => digest entry.1).Nodup) :
    last ∈ insert digest pair.1 pair.2 entries ↔
      last = pair ∨ digest last.1 ≠ digest pair.1 ∧ last ∈ entries := by
  induction entries with
  | nil => simp [insert]
  | cons entry rest ih =>
      obtain ⟨absent, distinctRest⟩ := List.nodup_cons.mp distinct
      have otherDigest : ∀ other ∈ rest, digest other.1 ≠ digest entry.1 :=
        fun other member same => absent (List.mem_map.mpr ⟨other, member, same⟩)
      rw [insert]
      split
      · next same =>
        rw [List.mem_cons, List.mem_cons]
        constructor
        · rintro (isPair | member)
          · exact .inl isPair
          · exact .inr ⟨same ▸ otherDigest last member, .inr member⟩
        · rintro (isPair | ⟨different, rfl | member⟩)
          · exact .inl isPair
          · exact absurd same different
          · exact .inr member
      · next different =>
        rw [List.mem_cons, List.mem_cons, ih distinctRest]
        constructor
        · rintro (rfl | isPair | ⟨otherwise, member⟩)
          · exact .inr ⟨different, .inl rfl⟩
          · exact .inl isPair
          · exact .inr ⟨otherwise, .inr member⟩
        · rintro (isPair | ⟨otherwise, rfl | member⟩)
          · exact .inr (.inl isPair)
          · exact .inl rfl
          · exact .inr (.inr ⟨otherwise, member⟩)

/-- No two entries of a map have the same digest. -/
theorem nodup_digests_insertAll :
    ((insertAll digest [] pairs).map fun entry => digest entry.1).Nodup := by
  induction pairs using List.reverseRecOn with
  | nil => exact List.nodup_nil
  | append_singleton pairs pair ih =>
      rw [insertAll_append_singleton]
      exact nodup_digests_insert digest pair.1 pair.2 ih

/-- What has been put in are the last pairs. -/
theorem mem_insertAll_iff : last ∈ insertAll digest [] pairs ↔ IsLast digest pairs last := by
  induction pairs using List.reverseRecOn with
  | nil => simpa [insertAll] using isLast_nil
  | append_singleton pairs pair ih =>
      rw [insertAll_append_singleton, mem_insert_iff nodup_digests_insertAll, ih,
        isLast_append_singleton]

/-- Of the pairs whose keys have one digest the last is found. -/
theorem find?_insertAll_of_isLast (isLast : IsLast digest pairs last) :
    find? digest (digest last.1) (insertAll digest [] pairs) = some last.2 := by
  induction pairs using List.reverseRecOn with
  | nil => exact absurd isLast isLast_nil
  | append_singleton pairs pair ih =>
      rw [insertAll_append_singleton, find?_insert]
      rcases isLast_append_singleton.mp isLast with rfl | ⟨different, before⟩
      · exact if_pos rfl
      · rw [if_neg different.symm, ih before]

private theorem find?_insertAll_of_absent {target : δ}
    (absent : ∀ pair ∈ pairs, digest pair.1 ≠ target) :
    find? digest target (insertAll digest [] pairs) = none := by
  induction pairs using List.reverseRecOn with
  | nil => rfl
  | append_singleton pairs pair ih =>
      obtain ⟨absentBefore, absentLast⟩ := List.forall_mem_append.mp absent
      rw [insertAll_append_singleton, find?_insert, if_neg (absentLast pair (by simp)),
        ih absentBefore]

end Assoc

/-! ## Digests -/

namespace Key

private theorem hash_eq_iff {key key' : Key} :
    key.hash = key'.hash ↔ key.kind = key'.kind ∧ key.digest = key'.digest := by
  simp [hash]

private theorem hash_int_eq_iff {n n' : Int64} : (int n).hash = (int n').hash ↔ n = n' := by
  obtain ⟨bits⟩ := n
  obtain ⟨bits'⟩ := n'
  simp [hash, kind, digest]

private theorem hash_bool_eq_iff {b b' : Bool} : (bool b).hash = (bool b').hash ↔ b = b' := by
  cases b <;> cases b' <;> decide

private theorem hash_str_eq_iff {text text' : String} :
    (str text).hash = (str text').hash ↔
      fnv1a text.toUTF8.data.toList = fnv1a text'.toUTF8.data.toList := by
  rw [hash_eq_iff]
  exact ⟨fun same => same.2, fun same => ⟨rfl, same⟩⟩

end Key

namespace Value

def hashKey? (value : Value) : Option HashKey := value.key?.map Key.hash

private theorem kind_eq_of_hashKey? {value : Value} {hashKey : HashKey}
    (isKey : value.hashKey? = some hashKey) : hashKey.kind = value.kind := by
  obtain ⟨key, keyIs, rfl⟩ := Option.map_eq_some_iff.mp isKey
  exact kind_eq_of_key? keyIs

end Value

/-! ## Evaluating a literal -/

def Value.Plain (value : Value) : Prop := value.kind ≠ .returned ∧ value.kind ≠ .error

instance (value : Value) : Decidable value.Plain := inferInstanceAs (Decidable (_ ∧ _))

theorem Run.settle_of_plain {value : Value} (plain : value.Plain) :
    Run.settle value = pure value := by
  cases value with
  | returned value => exact absurd rfl plain.1
  | _ => rfl

/-- `PairsGive call env pairs machine found after`: evaluated one after the other, the pairs give
the keys and values that were `found`. All keys can be map keys and all values are plain. -/
inductive Expr.PairsGive (call : Caller) (env : Env) :
    List (Expr × Expr) → Machine → List (Key × Value) → Machine → Prop where
  | nil {machine : Machine} : PairsGive call env [] machine [] machine
  | cons {key value : Expr} {rest : List (Expr × Expr)} {machine middle middle' after : Machine}
      {keyValue result : Value} {isKey : Key} {found : List (Key × Value)} :
      key.eval call env machine = (.ok keyValue, middle) → keyValue.key? = some isKey →
      value.eval call env middle = (.ok result, middle') → result.Plain →
      PairsGive call env rest middle' found after →
      PairsGive call env ((key, value) :: rest) machine ((isKey, result) :: found) after

namespace Expr

variable {call : Caller} {env : Env} {pairs rest : List (Expr × Expr)}
  {machine after last : Machine} {found entries : List (Key × Value)}

private theorem PairsGive.plain (gives : PairsGive call env pairs machine found after) :
    ∀ pair ∈ found, pair.2.Plain := by
  induction gives with
  | nil => nofun
  | cons _ _ _ plain _ ih => exact List.forall_mem_cons.mpr ⟨plain, ih⟩

/-- What the first pairs give is put in before the other pairs are evaluated. -/
theorem evalPairs_append (gives : PairsGive call env pairs machine found after) :
    Expr.evalPairs call env entries (pairs ++ rest) machine =
      Expr.evalPairs call env (Assoc.insertAll Key.hash entries found) rest after := by
  induction gives generalizing entries with
  | nil => rfl
  | cons keyGives isKey valueGives _ _ ih =>
      rw [List.cons_append, Expr.evalPairs, Run.bind_of_ok _ keyGives, isKey]
      dsimp only
      rw [Run.bind_of_ok _ valueGives, ih]
      rfl

/-- The map is made after all pairs were evaluated. -/
theorem eval_map_of_gives (token : Token) (gives : PairsGive call env pairs machine found after) :
    (Expr.map token pairs).eval call env machine =
      Run.allocate (fun ref => .map ref (Assoc.insertAll Key.hash [] found)) after := by
  have all := @evalPairs_append call env pairs [] machine after found [] gives
  rw [List.append_nil] at all
  rw [Expr.eval, Run.bind_of_ok _ all]

/-- The first key that cannot be one ends the evaluation. -/
theorem eval_map_of_unhashable (token : Token)
    (gives : PairsGive call env pairs machine found after) {key : Expr} {keyValue : Value}
    (keyGives : key.eval call env after = (.ok keyValue, last)) (noKey : keyValue.key? = none)
    (value : Expr) :
    (Expr.map token (pairs ++ (key, value) :: rest)).eval call env machine =
      (.error (.failed (.unhashable keyValue.kind)), last) := by
  have ends : Expr.evalPairs call env [] (pairs ++ (key, value) :: rest) machine =
      (.error (.failed (.unhashable keyValue.kind)), last) := by
    rw [evalPairs_append gives, Expr.evalPairs, Run.bind_of_ok _ keyGives, noKey]
    rfl
  rw [Expr.eval, Run.bind_of_error _ ends]

end Expr

namespace Value

/-- Wherever an expression gives the collection and then another one the position, indexing the one
with the other goes on with the run. -/
def IndexRuns (collection position : Value) (run : Run Interrupt Value) : Prop :=
  ∀ (call : Caller) (env : Env) (token : Token) (left right : Expr)
    (machine middle after : Machine),
    left.eval call env machine = (.ok collection, middle) →
    right.eval call env middle = (.ok position, after) →
    (Expr.index token left right).eval call env machine = run after

def IndexGives (collection position result : Value) : Prop :=
  IndexRuns collection position (pure result)

/-- The item that indexing finds is used as the result, like that of a call. -/
theorem indexRuns_of_index {collection position item : Value}
    (found : collection.index position = .ok item) :
    IndexRuns collection position (Run.settle item) := by
  intro call env token left right machine middle after leftGives rightGives
  have itemGives : (Run.ofExcept (collection.index position)).interruptible after =
      (.ok item, after) := by
    rw [found]
    rfl
  rw [Expr.eval, Run.bind_of_ok _ leftGives, Run.bind_of_ok _ rightGives,
    Run.bind_of_ok _ itemGives]

theorem indexGives_of_index {collection position result : Value}
    (item : collection.index position = .ok result) (plain : result.Plain) :
    IndexGives collection position result := by
  rw [IndexGives, ← Run.settle_of_plain plain]
  exact indexRuns_of_index item

/-- Indexing a map looks for the digest of the position and gives null where it is missing. -/
theorem index_map {ref : Ref} {entries : List (Key × Value)} {position : Value} {key : Key}
    (isKey : position.key? = some key) :
    (Value.map ref entries).index position =
      .ok ((Assoc.find? Key.hash key.hash entries).getD .null) := by
  simp only [Value.index, isKey]

end Value

/-- The last pair wins: a map literal whose pairs give plain values makes a map with one entry for
each digest, the last pair that has it. Indexing finds the value of that pair, and null where no
pair has the digest. Digests tell all integers, all booleans and all kinds apart. The first key
that cannot be one ends the literal, before its value and all that follow. -/
theorem Expr.map_last_pair_wins (call : Caller) (env : Env) (token : Token) :
    (∀ pairs machine found after, Expr.PairsGive call env pairs machine found after →
      ∃ entries,
        (Expr.map token pairs).eval call env machine =
          (.ok (.map after.nextRef entries), { after with nextRef := after.nextRef + 1 }) ∧
        (entries.map fun entry => entry.1.hash).Nodup ∧
        (∀ pair, pair ∈ entries ↔ Assoc.IsLast Key.hash found pair) ∧
        ∀ position key, position.key? = some key →
          (∀ pair, Assoc.IsLast Key.hash found pair → pair.1.hash = key.hash →
            Value.IndexGives (.map after.nextRef entries) position pair.2) ∧
          ((∀ pair ∈ found, pair.1.hash ≠ key.hash) →
            Value.IndexGives (.map after.nextRef entries) position .null)) ∧
      (∀ n n', (Value.int n).hashKey? = (Value.int n').hashKey? ↔ n = n') ∧
      (∀ b b', (Value.bool b).hashKey? = (Value.bool b').hashKey? ↔ b = b') ∧
      (∀ ref text ref' text', (Value.str ref text).hashKey? = (Value.str ref' text').hashKey? ↔
        fnv1a text.toUTF8.data.toList = fnv1a text'.toUTF8.data.toList) ∧
      (∀ (value value' : Value) (hashKey : HashKey), value.hashKey? = some hashKey →
        value'.hashKey? = some hashKey → value.kind = value'.kind) ∧
      ∀ pairs machine found middle key keyValue after value rest,
        Expr.PairsGive call env pairs machine found middle →
        key.eval call env middle = (.ok keyValue, after) → keyValue.hashKey? = none →
        (Expr.map token (pairs ++ (key, value) :: rest)).eval call env machine =
          (.error (.failed (.unhashable keyValue.kind)), after) := by
  refine ⟨fun pairs machine found after gives => ?literal, fun n n' => ?int, fun b b' => ?bool,
    fun ref text ref' text' => ?str, fun value value' hashKey isKey isKey' => ?kinds,
    fun pairs machine found middle key keyValue after value rest gives keyGives noKey => ?fails⟩
  case literal =>
    refine ⟨Assoc.insertAll Key.hash [] found, Expr.eval_map_of_gives token gives,
      Assoc.nodup_digests_insertAll, fun _ => Assoc.mem_insertAll_iff,
      fun position key isKey => ⟨fun pair isLast same => ?_, fun absent => ?_⟩⟩
    · have plain : pair.2.Plain := by
        obtain ⟨earlier, later, rfl, _⟩ := isLast
        exact gives.plain pair (by simp)
      refine Value.indexGives_of_index ?_ plain
      rw [Value.index_map isKey, ← same, Assoc.find?_insertAll_of_isLast isLast, Option.getD_some]
    · refine Value.indexGives_of_index ?_ (by decide)
      rw [Value.index_map isKey, Assoc.find?_insertAll_of_absent absent, Option.getD_none]
  case int =>
    rw [← Key.hash_int_eq_iff]
    exact Option.some_inj
  case bool =>
    rw [← Key.hash_bool_eq_iff]
    exact Option.some_inj
  case str =>
    rw [← Key.hash_str_eq_iff]
    exact Option.some_inj
  case kinds =>
    rw [← Value.kind_eq_of_hashKey? isKey, Value.kind_eq_of_hashKey? isKey']
  case fails =>
    exact Expr.eval_map_of_unhashable token gives keyGives (Option.map_eq_none_iff.mp noKey) value

/-- A literal with an integer and a boolean of one digest, and with two strings of one digest. -/
def collidingPairs : List (Expr × Expr) :=
  [(.str ⟨.str, "8yn0iYCKYHlIj4-BwPqk"⟩, .int ⟨.int, "5"⟩ 5),
    (.int ⟨.int, "1"⟩ 1, .int ⟨.int, "6"⟩ 6),
    (.bool ⟨.kwTrue, "true"⟩ true, .int ⟨.int, "7"⟩ 7),
    (.str ⟨.str, "GReLUrM4wMqfg9yzV3KQ"⟩, .int ⟨.int, "8"⟩ 8)]

def collidingFound : List (Key × Value) :=
  [(.str "8yn0iYCKYHlIj4-BwPqk", .int 5), (.int 1, .int 6), (.bool true, .int 7),
    (.str "GReLUrM4wMqfg9yzV3KQ", .int 8)]

theorem Expr.map_last_pair_wins_colliding :
    (∃ entries,
      (Expr.map ⟨.openBrace, "\x7b"⟩ collidingPairs).eval (Value.apply 0 0) ⟨0, []⟩
          (Machine.start (.empty none)) =
        (.ok (.map 2 entries), .ofScopes #[] 3) ∧
      (.str "GReLUrM4wMqfg9yzV3KQ", .int 8) ∈ entries ∧
      Value.IndexGives (.map 2 entries) (.str 0 "8yn0iYCKYHlIj4-BwPqk") (.int 8) ∧
      Value.IndexGives (.map 2 entries) (.bool true) (.int 7) ∧
      Value.IndexGives (.map 2 entries) (.bool false) .null) ∧
    (Expr.map ⟨.openBrace, "\x7b"⟩
        (collidingPairs ++ [(.list ⟨.openBracket, "["⟩ [], .ident ⟨.ident, "x"⟩)])).eval
        (Value.apply 0 0) ⟨0, []⟩ (Machine.start (.empty none)) =
      (.error (.failed (.unhashable .list)), .ofScopes #[] 3) := by
  have gives : Expr.PairsGive (Value.apply 0 0) ⟨0, []⟩ collidingPairs
      (Machine.start (.empty none)) collidingFound (.ofScopes #[] 2) :=
    .cons rfl rfl rfl (by decide) (.cons rfl rfl rfl (by decide)
      (.cons rfl rfl rfl (by decide) (.cons rfl rfl rfl (by decide) .nil)))
  have lastString : Assoc.IsLast Key.hash collidingFound
      (.str "GReLUrM4wMqfg9yzV3KQ", .int 8) :=
    ⟨collidingFound.take 3, [], rfl, nofun⟩
  have lastBool : Assoc.IsLast Key.hash collidingFound (.bool true, .int 7) :=
    ⟨collidingFound.take 2, collidingFound.drop 3, rfl, by decide +kernel⟩
  have law := Expr.map_last_pair_wins (Value.apply 0 0) ⟨0, []⟩ ⟨.openBrace, "\x7b"⟩
  obtain ⟨entries, literal, _, holds, finds⟩ := law.1 _ _ _ _ gives
  refine ⟨⟨entries, literal, (holds _).mpr lastString, ?ofString, ?ofBool, ?absent⟩, ?fails⟩
  case ofString => exact (finds _ _ rfl).1 _ lastString (by decide +kernel)
  case ofBool => exact (finds _ _ rfl).1 _ lastBool rfl
  case absent => exact (finds _ _ rfl).2 (by decide +kernel)
  case fails => exact law.2.2.2.2.2 _ _ _ _ _ (.list 2 []) _ _ _ gives rfl rfl

end Script
