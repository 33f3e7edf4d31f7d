import Script.Proofs.Activity
import Script.Proofs.Simulations

/-!
# Evaluation side by side

Evaluating the same code in environments that stand for each other keeps a simulation, and so do
calls of functions that stand for each other. This is the one place where the evaluation of every
expression and statement is followed for what it does to machines and values.
-/

set_option autoImplicit false

namespace Script

namespace Simulation

variable {S : Simulation}

variable (S) in
/-- Calls of values that stand for each other, with such arguments, end alike in every world. -/
def Calls (call call' : Caller) : Prop :=
  ∀ ⦃world : S.World⦄ ⦃callee callee' : Value⦄ ⦃arguments arguments' : List Value⦄,
    S.values world callee callee' → S.several.related world arguments arguments' →
    S.Runs world S.single S.failures (call callee arguments) (call' callee' arguments')

section Evaluation

variable {call call' : Caller}

mutual

/-- Code goes side by side with itself in environments that stand for each other, provided that
calls do. The recursion is the one of the evaluator. -/
theorem runs_expr (calls : S.Calls call call') :
    (expr : Expr) → ∀ {world : S.World} {env env' : Env}, S.envs world env env' →
      S.Runs world S.single S.interrupts (expr.eval call env) (expr.eval call' env')
  | .ident token, _, _, _, sameEnv => runs_lookup sameEnv token.text
  | .int _ value, _, _, _, _ => runs_pure (S.atoms (.int value))
  | .bool _ value, _, _, _, _ => runs_pure (S.atoms (.bool value))
  | .str token, _, _, _, _ => runs_allocate fun _ _ => .str token.text
  | .unary _ op operand, _, _, _, sameEnv => by
      rw [Expr.eval, Expr.eval]
      apply (runs_expr calls operand sameEnv).bind
      intro world' _ value value' same
      have applied : S.Runs world' S.single S.failures (.ofExcept (op.apply value))
        (.ofExcept (op.apply value')) := runs_ofExcept (unaryOp_alike op same)
      exact applied.interruptible
  | .binary _ op left right, _, _, _, sameEnv => by
      rw [Expr.eval, Expr.eval]
      apply (runs_expr calls left sameEnv).bind
      intro _ grown leftValue leftValue' sameLeft
      apply (runs_expr calls right (S.envs_grow grown sameEnv)).bind
      intro _ grownAgain rightValue rightValue' sameRight
      exact (runs_binaryOp op (S.values_grow grownAgain sameLeft) sameRight).interruptible
  | .conditional _ condition consequence none, _, _, _, sameEnv => by
      rw [Expr.eval, Expr.eval]
      apply (runs_expr calls condition sameEnv).bind
      intro _ grown decision decision' same
      rw [(S.alike same).truthy_eq]
      split
      · exact runs_block calls consequence (S.envs_grow grown sameEnv)
      · exact runs_pure (S.atoms .null)
  | .conditional _ condition consequence (some alternative), _, _, _, sameEnv => by
      rw [Expr.eval, Expr.eval]
      apply (runs_expr calls condition sameEnv).bind
      intro _ grown decision decision' same
      rw [(S.alike same).truthy_eq]
      split
      · exact runs_block calls consequence (S.envs_grow grown sameEnv)
      · exact runs_block calls alternative (S.envs_grow grown sameEnv)
  | .function _ parameters body, _, _, _, sameEnv =>
      runs_allocate fun _ _ => .function parameters body sameEnv
  | .call _ callee arguments, _, _, _, sameEnv => by
      rw [Expr.eval, Expr.eval]
      apply (runs_expr calls callee sameEnv).bind
      intro _ grown function function' sameFunction
      apply (runs_exprs calls arguments (S.envs_grow grown sameEnv)).bind
      intro _ grownAgain values values' sameValues
      apply (calls (S.values_grow grownAgain sameFunction) sameValues).interruptible.bind
      intro _ _ result result' same
      exact runs_settle same
  | .list _ elements, _, _, _, sameEnv => by
      rw [Expr.eval, Expr.eval]
      apply (runs_exprs calls elements sameEnv).bind
      intro _ _ items items' same
      exact runs_allocate fun _ _ => .list same
  | .map _ pairs, _, _, _, sameEnv => by
      rw [Expr.eval, Expr.eval]
      apply (runs_pairs calls pairs sameEnv .nil).bind
      intro _ _ entries entries' same
      exact runs_allocate fun _ _ => .map same
  | .index _ collection position, _, _, _, sameEnv => by
      rw [Expr.eval, Expr.eval]
      apply (runs_expr calls collection sameEnv).bind
      intro _ grown collectionValue collectionValue' sameCollection
      apply (runs_expr calls position (S.envs_grow grown sameEnv)).bind
      intro world' grownAgain positionValue positionValue' samePosition
      have indexed : S.Runs world' S.single S.failures
          (.ofExcept (collectionValue.index positionValue))
          (.ofExcept (collectionValue'.index positionValue')) :=
        runs_ofExcept (index_alike (S.values_grow grownAgain sameCollection) samePosition)
      apply indexed.interruptible.bind
      intro _ _ item item' same
      exact runs_settle same

theorem runs_exprs (calls : S.Calls call call') :
    (exprs : List Expr) → ∀ {world : S.World} {env env' : Env}, S.envs world env env' →
      S.Runs world S.several S.interrupts (Expr.evalAll call env exprs)
        (Expr.evalAll call' env' exprs)
  | [], _, _, _, _ => runs_pure .nil
  | expr :: rest, _, _, _, sameEnv => by
      rw [Expr.evalAll, Expr.evalAll]
      apply (runs_expr calls expr sameEnv).bind
      intro _ grown value value' same
      apply (runs_exprs calls rest (S.envs_grow grown sameEnv)).bind
      intro _ grownAgain values values' sameRest
      exact runs_pure (.cons (S.values_grow grownAgain same) sameRest)

theorem runs_pairs (calls : S.Calls call call') :
    (pairs : List (Expr × Expr)) → ∀ {world : S.World} {env env' : Env}
      {found found' : List (Key × Value)}, S.envs world env env' →
      S.entries.related world found found' →
      S.Runs world S.entries S.interrupts (Expr.evalPairs call env found pairs)
        (Expr.evalPairs call' env' found' pairs)
  | [], _, _, _, _, _, _, sameFound => runs_pure sameFound
  | (key, value) :: rest, _, _, _, _, _, sameEnv, sameFound => by
      rw [Expr.evalPairs, Expr.evalPairs]
      apply (runs_expr calls key sameEnv).bind
      intro _ grown keyValue keyValue' sameKey
      rw [(S.alike sameKey).key?_eq, (S.alike sameKey).kind_eq]
      split
      · exact runs_throw (.failed _)
      · apply (runs_expr calls value (S.envs_grow grown sameEnv)).bind
        intro _ grownAgain result result' same
        have grownAll := S.grows_trans grown grownAgain
        exact runs_pairs calls rest (S.envs_grow grownAll sameEnv)
          (Assoc.insert_related _ (entries_grow grownAll sameFound) same)

theorem runs_block (calls : S.Calls call call') :
    (block : Block) → ∀ {world : S.World} {env env' : Env}, S.envs world env env' →
      S.Runs world S.single S.interrupts (block.eval call env) (block.eval call' env')
  | ⟨_, statements⟩, _, _, _, sameEnv => by
      rw [Block.eval, Block.eval]
      apply (runs_stmts calls statements sameEnv .none).bind
      intro _ _ result result' same
      exact runs_pure (getD_related same)

theorem runs_stmts (calls : S.Calls call call') :
    (stmts : List Stmt) → ∀ {world : S.World} {env env' : Env} {last last' : Option Value},
      S.envs world env env' → S.optional.related world last last' →
      S.Runs world S.optional S.interrupts (Stmt.evalAll call env last stmts)
        (Stmt.evalAll call' env' last' stmts)
  | [], _, _, _, _, _, _, sameLast => runs_pure sameLast
  | stmt :: rest, _, _, _, _, _, sameEnv, _ => by
      rw [Stmt.evalAll, Stmt.evalAll]
      apply (runs_stmt calls stmt sameEnv).bind
      intro _ grown result result' same
      exact runs_stmts calls rest (S.envs_grow grown sameEnv) same

theorem runs_stmt (calls : S.Calls call call') :
    (stmt : Stmt) → ∀ {world : S.World} {env env' : Env}, S.envs world env env' →
      S.Runs world S.optional S.interrupts (stmt.eval call env) (stmt.eval call' env')
  | .bind _ name value, _, _, _, sameEnv => by
      rw [Stmt.eval, Stmt.eval]
      apply (runs_expr calls value sameEnv).bind
      intro _ grown bound bound' same
      apply (runs_set name.text (S.envs_grow grown sameEnv) same).bind
      intro _ _ _ _ _
      exact runs_pure .none
  | .ret _ value, _, _, _, sameEnv => by
      rw [Stmt.eval, Stmt.eval]
      apply (runs_expr calls value sameEnv).bind
      intro _ _ result result' same
      exact runs_throw (.returned same)
  | .expr _ expression, _, _, _, sameEnv => by
      rw [Stmt.eval, Stmt.eval]
      apply (runs_expr calls expression sameEnv).bind
      intro _ _ result result' same
      exact runs_pure (.some same)

end

/-! ## Calls -/

variable {world : S.World}

/-- What a call ends with is brought back to the world that it was made in. -/
theorem Ends.leaveCall {inner : S.World} {ending ending' : Except RuntimeError Value × Machine}
    (opens : S.opens world inner) (ends : S.Ends inner S.single S.failures ending ending') :
    S.Ends world S.single S.failures (ending.1, ending.2.leaveCall)
      (ending'.1, ending'.2.leaveCall) := by
  cases ends with
  | alike grown related same =>
      obtain ⟨world', grown', related', moved⟩ := S.leave opens grown related
      refine .alike grown' related' ?_
      cases same with
      | ok same => exact .ok (moved _ _ same)
      | error same => exact .error same
  | stopped isStop behind => exact .stopped isStop behind

theorem runs_enter (calls : S.Calls call call') {ref ref' : Ref} {parameters : List Token}
    {body : Block} {env env' : Env} {arguments arguments' : List Value}
    (same : S.values world (.function ref ⟨parameters, body, env⟩)
      (.function ref' ⟨parameters, body, env'⟩))
    (sameArguments : S.several.related world arguments arguments') :
    S.Runs world S.single S.failures (Closure.enter ⟨parameters, body, env⟩ arguments call)
      (Closure.enter ⟨parameters, body, env'⟩ arguments' call') where
  together machine machine' related := by
    obtain ⟨inner, opens, sameInner, related'⟩ := S.enter related same sameArguments
    have entered := (runs_block calls body sameInner).catchReturn id fun _ _ _ same => same
    exact (entered.together _ _ related').leaveCall opens
  goesOn stopping machine := by
    obtain ⟨_, isStop⟩ := stopping
    let opened := machine.newScope env' (.ofArguments parameters arguments')
    have sameInner := S.envs_self isStop world opened.1
    have entered := (runs_block calls body sameInner).catchReturn id fun _ _ _ same => same
    exact entered.goesOn ⟨_, isStop⟩ opened.2.enterCall

/-- The second run may have `extra` calls left when the first has none. Then it remains to compare
the refusal of a call with what the second run does with it. -/
theorem calls_apply {limit limit' extra : Nat}
    (refusal : ∀ ⦃world : S.World⦄ ⦃ref : Ref⦄ ⦃closure : Closure⦄ ⦃arguments : List Value⦄,
      arguments.length = closure.parameters.length →
      S.Runs world S.single S.failures (.throw (.callDepthExceeded limit))
        (Value.apply limit' extra (.function ref closure) arguments))
    (budget : Nat) : S.Calls (Value.apply limit budget) (Value.apply limit' (budget + extra)) := by
  intro world callee callee' arguments arguments' same sameArguments
  cases S.alike same with
  | function ref ref' parameters body env env' =>
      by_cases fits : arguments'.length = parameters.length
      · have fits' : arguments.length = parameters.length := sameArguments.length_eq.trans fits
        cases budget with
        | zero =>
            rw [Value.apply_of_exhausted fits', Nat.zero_add]
            exact refusal fits
        | succ budget =>
            rw [Nat.succ_add, Value.apply_of_allowed fits', Value.apply_of_allowed fits]
            exact runs_enter (calls_apply refusal budget) same sameArguments
      · have misfits : arguments.length ≠ parameters.length := sameArguments.length_eq ▸ fits
        rw [Value.apply_of_miscounted misfits, Value.apply_of_miscounted fits]
        exact runs_throw (congrArg (RuntimeError.wrongArgumentCount · _) sameArguments.length_eq)
  | atom isAtom =>
      cases isAtom with
      | builtin native =>
          rw [Value.apply_builtin, Value.apply_builtin]
          exact runs_invoke native sameArguments
      | _ =>
          rw [Value.apply.eq_def, Value.apply.eq_def]
          exact runs_throw rfl
  | _ =>
      rw [Value.apply.eq_def, Value.apply.eq_def]
      exact runs_throw rfl

/-- Calls under the same limit end alike, however deep they may nest. -/
theorem calls_apply_self (limit budget : Nat) :
    S.Calls (Value.apply limit budget) (Value.apply limit budget) := by
  refine @calls_apply S limit limit 0 (fun _ _ _ _ fits => ?_) budget
  rw [Value.apply_of_exhausted fits]
  exact runs_throw rfl

end Evaluation

/-! ## Tasks -/

section Tasks

variable {world : S.World}

variable (S) in
inductive tasks (world : S.World) : Task → Task → Prop where
  | expr {env env' : Env} (code : Expr) :
      S.envs world env env' → tasks world (.expr env code) (.expr env' code)
  | exprs {env env' : Env} (codes : List Expr) :
      S.envs world env env' → tasks world (.exprs env codes) (.exprs env' codes)
  | pairs {env env' : Env} {found found' : List (Key × Value)} (codes : List (Expr × Expr)) :
      S.envs world env env' → S.entries.related world found found' →
      tasks world (.pairs env found codes) (.pairs env' found' codes)
  | block {env env' : Env} (code : Block) :
      S.envs world env env' → tasks world (.block env code) (.block env' code)
  | stmts {env env' : Env} {last last' : Option Value} (codes : List Stmt) :
      S.envs world env env' → S.optional.related world last last' →
      tasks world (.stmts env last codes) (.stmts env' last' codes)
  | stmt {env env' : Env} (code : Stmt) :
      S.envs world env env' → tasks world (.stmt env code) (.stmt env' code)
  | call {callee callee' : Value} {arguments arguments' : List Value} :
      S.values world callee callee' → S.several.related world arguments arguments' →
      tasks world (.call callee arguments) (.call callee' arguments')
  | program {env env' : Env} (code : Program) :
      S.envs world env env' → tasks world (.program env code) (.program env' code)

variable (S) in
inductive RelatedOutcomes (world : S.World) : Outcome → Outcome → Prop where
  | value {value value' : Value} :
      S.values world value value' → RelatedOutcomes world (.value value) (.value value')
  | values {values values' : List Value} :
      S.several.related world values values' →
      RelatedOutcomes world (.values values) (.values values')
  | entries {found found' : List (Key × Value)} :
      S.entries.related world found found' →
      RelatedOutcomes world (.entries found) (.entries found')
  | last {value value' : Option Value} :
      S.optional.related world value value' → RelatedOutcomes world (.last value) (.last value')

variable (S) in
def outcomes : S.Results Outcome where
  related := S.RelatedOutcomes
  self stopping world outcome :=
    match outcome with
    | .value value => .value (S.single.self stopping world value)
    | .values values => .values (S.several.self stopping world values)
    | .entries found => .entries (S.entries.self stopping world found)
    | .last value => .last (S.optional.self stopping world value)

/-- The same code does work on one machine that stands for the work on the other. -/
theorem runs_task {limit limit' budget budget' : Nat}
    (calls : S.Calls (Value.apply limit budget) (Value.apply limit' budget')) {task task' : Task}
    (same : S.tasks world task task') :
    S.Runs world S.outcomes S.interrupts (task.run limit budget) (task'.run limit' budget') := by
  cases same with
  | expr code sameEnv => exact (runs_expr calls code sameEnv).map _ fun _ _ _ => .value
  | exprs codes sameEnv => exact (runs_exprs calls codes sameEnv).map _ fun _ _ _ => .values
  | pairs codes sameEnv sameFound =>
      exact (runs_pairs calls codes sameEnv sameFound).map _ fun _ _ _ => .entries
  | block code sameEnv => exact (runs_block calls code sameEnv).map _ fun _ _ _ => .value
  | stmts codes sameEnv sameLast =>
      exact (runs_stmts calls codes sameEnv sameLast).map _ fun _ _ _ => .last
  | stmt code sameEnv => exact (runs_stmt calls code sameEnv).map _ fun _ _ _ => .last
  | call sameCallee sameArguments =>
      exact (calls sameCallee sameArguments).interruptible.map _ fun _ _ _ => .value
  | program code sameEnv =>
      have caught := (runs_stmts calls code.statements sameEnv .none).catchReturn some
        fun _ _ _ => .some
      exact caught.interruptible.map _ fun _ _ _ => .last

end Tasks

end Simulation

/-! ## Runs beside themselves -/

def Task.env? : Task → Option Env
  | .expr env _ | .exprs env _ | .pairs env _ _ | .block env _ | .stmts env _ _ | .stmt env _
  | .program env _ => some env
  | .call _ _ => none

def Task.inputs : Task → List Value
  | .pairs _ entries _ => entries.map Prod.snd
  | .stmts _ last _ => last.toList
  | .call callee arguments => callee :: arguments
  | _ => []

def Outcome.contents : Outcome → List Value
  | .value result => [result]
  | .values results => results
  | .entries found => found.map Prod.snd
  | .last result => result.toList

def Activity.endValues : Except Interrupt Outcome → List Value
  | .ok outcome => outcome.contents
  | .error (.returned value) => [value]
  | .error (.failed _) => []

namespace Simulation

variable {S : Simulation} {world : S.World}

theorem several_self {items : List Value} (same : ∀ item ∈ items, S.values world item item) :
    S.several.related world items items :=
  List.forall₂_same.mpr same

theorem tasks_self {task : Task} (sameEnv : ∀ env ∈ task.env?, S.envs world env env)
    (same : ∀ value ∈ task.inputs, S.values world value value) : S.tasks world task task := by
  cases task with
  | expr env code => exact .expr code (sameEnv env rfl)
  | exprs env codes => exact .exprs codes (sameEnv env rfl)
  | pairs env entries codes =>
      refine .pairs codes (sameEnv env rfl) (forall₂_entries_same fun entry member => ?_)
      exact same entry.2 (List.mem_map_of_mem member)
  | block env code => exact .block code (sameEnv env rfl)
  | stmts env last codes =>
      refine .stmts codes (sameEnv env rfl) ?_
      cases last with
      | none => exact .none
      | some value => exact .some (same value (by simp [Task.inputs]))
  | stmt env code => exact .stmt code (sameEnv env rfl)
  | call callee arguments =>
      obtain ⟨sameCallee, sameArguments⟩ := List.forall_mem_cons.mp same
      exact .call sameCallee (several_self sameArguments)
  | program env code => exact .program code (sameEnv env rfl)

theorem env_of_tasks {task : Task} (same : S.tasks world task task) :
    ∀ env ∈ task.env?, S.envs world env env := by
  intro env isEnv
  cases same with
  | call => cases isEnv
  | _ =>
      cases isEnv
      assumption

theorem values_of_entries {found : List (Key × Value)}
    (same : S.entries.related world found found) :
    ∀ value ∈ found.map Prod.snd, S.values world value value := by
  intro value member
  obtain ⟨entry, entryMember, rfl⟩ := List.mem_map.mp member
  obtain ⟨_, sameValue⟩ := List.forall₂_same.mp same entry entryMember
  exact sameValue

theorem values_of_optional {found : Option Value} (same : S.optional.related world found found) :
    ∀ value ∈ found.toList, S.values world value value := by
  intro value member
  cases same with
  | none => cases member
  | some same => exact List.mem_singleton.mp member ▸ same

theorem values_of_tasks {task : Task} (same : S.tasks world task task) :
    ∀ value ∈ task.inputs, S.values world value value := by
  cases same with
  | pairs _ _ sameFound => exact values_of_entries sameFound
  | stmts _ _ sameLast => exact values_of_optional sameLast
  | call sameCallee sameArguments =>
      exact List.forall_mem_cons.mpr ⟨sameCallee, List.forall₂_same.mp sameArguments⟩
  | _ => exact nofun

theorem values_of_outcomes {outcome : Outcome} (same : S.outcomes.related world outcome outcome) :
    ∀ value ∈ outcome.contents, S.values world value value := by
  cases same with
  | value same => exact List.forall_mem_singleton.mpr same
  | values same => exact List.forall₂_same.mp same
  | entries same => exact values_of_entries same
  | last same => exact values_of_optional same

theorem expr_self {limit budget : Nat} {env : Env} {expr : Expr} {machine after : Machine}
    {value : Value} (related : S.machines world machine machine) (sameEnv : S.envs world env env)
    (ended : expr.eval (Value.apply limit budget) env machine = (.ok value, after)) :
    ∃ world', S.grows world world' ∧ S.machines world' after after ∧ S.envs world' env env ∧
      S.values world' value value := by
  obtain ⟨world', grown, related', same⟩ :=
    (runs_expr (calls_apply_self limit budget) expr sameEnv).of_ok related ended
  exact ⟨world', grown, related', S.envs_grow grown sameEnv, same⟩

variable (S) in
/-- The first run is never stopped, and a world grows when the body of a function is entered. -/
structure Steady : Prop where
  unstopped : ¬ S.Stopping
  grows_of_opens {world inner : S.World} : S.opens world inner → S.grows world inner

/-- If its machine and its task stand for themselves, those of its parts do as well. -/
theorem part_self (steady : S.Steady) {outer inner : Activity} (part : Activity.Part outer inner)
    (related : S.machines world outer.machine outer.machine)
    (same : S.tasks world outer.task outer.task) :
    ∃ world', S.grows world world' ∧ S.machines world' inner.machine inner.machine ∧
      S.tasks world' inner.task inner.task := by
  have atOnce {task : Task} (sameTask : S.tasks world task task) :
      ∃ world', S.grows world world' ∧ S.machines world' outer.machine outer.machine ∧
        S.tasks world' task task := ⟨world, S.grows_refl world, related, sameTask⟩
  cases part with
  | operand | left | condition | callee | collection =>
      cases same with
      | expr _ sameEnv => exact atOnce (.expr _ sameEnv)
  | elements =>
      cases same with
      | expr _ sameEnv => exact atOnce (.exprs _ sameEnv)
  | pairs =>
      cases same with
      | expr _ sameEnv => exact atOnce (.pairs _ sameEnv .nil)
  | right ended | position ended =>
      cases same with
      | expr _ sameEnv =>
          obtain ⟨world', grown, related', sameEnv', _⟩ := expr_self related sameEnv ended
          exact ⟨world', grown, related', .expr _ sameEnv'⟩
  | consequence ended _ | alternative ended _ =>
      cases same with
      | expr _ sameEnv =>
          obtain ⟨world', grown, related', sameEnv', _⟩ := expr_self related sameEnv ended
          exact ⟨world', grown, related', .block _ sameEnv'⟩
  | arguments ended =>
      cases same with
      | expr _ sameEnv =>
          obtain ⟨world', grown, related', sameEnv', _⟩ := expr_self related sameEnv ended
          exact ⟨world', grown, related', .exprs _ sameEnv'⟩
  | call calleeEnded argumentsEnded =>
      cases same with
      | expr _ sameEnv =>
          obtain ⟨world', grown, related', sameEnv', sameCallee⟩ :=
            expr_self related sameEnv calleeEnded
          obtain ⟨world'', grown', related'', sameArguments⟩ :=
            (runs_exprs (calls_apply_self _ _) _ sameEnv').of_ok related' argumentsEnded
          exact ⟨world'', S.grows_trans grown grown', related'',
            .call (S.values_grow grown' sameCallee) sameArguments⟩
  | firstExpr =>
      cases same with
      | exprs _ sameEnv => exact atOnce (.expr _ sameEnv)
  | otherExprs ended =>
      cases same with
      | exprs _ sameEnv =>
          obtain ⟨world', grown, related', sameEnv', _⟩ := expr_self related sameEnv ended
          exact ⟨world', grown, related', .exprs _ sameEnv'⟩
  | key =>
      cases same with
      | pairs _ sameEnv _ => exact atOnce (.expr _ sameEnv)
  | value ended _ =>
      cases same with
      | pairs _ sameEnv _ =>
          obtain ⟨world', grown, related', sameEnv', _⟩ := expr_self related sameEnv ended
          exact ⟨world', grown, related', .expr _ sameEnv'⟩
  | otherPairs keyEnded _ valueEnded =>
      cases same with
      | pairs _ sameEnv sameFound =>
          obtain ⟨world', grown, related', sameEnv', _⟩ := expr_self related sameEnv keyEnded
          obtain ⟨world'', grown', related'', sameEnv'', sameResult⟩ :=
            expr_self related' sameEnv' valueEnded
          have grownAll := S.grows_trans grown grown'
          exact ⟨world'', grownAll, related'', .pairs _ sameEnv''
            (Assoc.insert_related _ (entries_grow grownAll sameFound) sameResult)⟩
  | body =>
      cases same with
      | block _ sameEnv => exact atOnce (.stmts _ sameEnv .none)
  | firstStmt =>
      cases same with
      | stmts _ sameEnv _ => exact atOnce (.stmt _ sameEnv)
  | otherStmts ended =>
      cases same with
      | stmts _ sameEnv _ =>
          obtain ⟨world', grown, related', sameResult⟩ :=
            (runs_stmt (calls_apply_self _ _) _ sameEnv).of_ok related ended
          exact ⟨world', grown, related', .stmts _ (S.envs_grow grown sameEnv) sameResult⟩
  | bound | returned | plain =>
      cases same with
      | stmt _ sameEnv => exact atOnce (.expr _ sameEnv)
  | entered _ opened =>
      subst opened
      cases same with
      | call sameCallee sameArguments =>
          obtain ⟨inner, opens, sameInner, related'⟩ := S.enter related sameCallee sameArguments
          exact ⟨inner, steady.grows_of_opens opens, related', .block _ sameInner⟩
  | statements =>
      cases same with
      | program _ sameEnv => exact atOnce (.stmts _ sameEnv .none)

/-- What stands for itself at the start of an evaluation still does at everything evaluated on the
way. -/
theorem within_self (steady : S.Steady) {outer inner : Activity} (within : outer.Within inner)
    (related : S.machines world outer.machine outer.machine)
    (same : S.tasks world outer.task outer.task) :
    ∃ world', S.grows world world' ∧ S.machines world' inner.machine inner.machine ∧
      S.tasks world' inner.task inner.task := by
  induction within with
  | refl => exact ⟨world, S.grows_refl world, related, same⟩
  | tail _ part ih =>
      obtain ⟨world', grown, related', same'⟩ := ih
      obtain ⟨world'', grown', related'', same''⟩ := part_self steady part related' same'
      exact ⟨world'', S.grows_trans grown grown', related'', same''⟩

/-- What an evaluation ends with stands for itself if that with which it started does. -/
theorem finish_self (steady : S.Steady) (activity : Activity)
    (related : S.machines world activity.machine activity.machine)
    (same : S.tasks world activity.task activity.task) :
    ∃ world', S.grows world world' ∧ S.machines world' activity.finish.2 activity.finish.2 ∧
      ∀ value ∈ Activity.endValues activity.finish.1, S.values world' value value := by
  have calls : S.Calls (Value.apply activity.limit activity.budget)
    (Value.apply activity.limit activity.budget) := calls_apply_self _ _
  obtain ⟨world', grown, related', ends⟩ := (runs_task calls same).ends steady.unstopped related
  refine ⟨world', grown, related', ?_⟩
  change Run.EndAlike _ _ activity.finish.1 activity.finish.1 at ends
  generalize activity.finish.1 = ending at ends
  cases ending with
  | ok outcome =>
      cases ends with
      | ok same => exact values_of_outcomes same
  | error interrupt =>
      cases ends with
      | error same =>
          cases same with
          | failed => exact nofun
          | returned same => exact List.forall_mem_singleton.mpr same

end Simulation

end Script
