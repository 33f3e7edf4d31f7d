import Script.Proofs.Correspondence
import Script.Proofs.Effects
import Script.Proofs.HeldEnvironments

/-!
# Existing environments stay as they are

A scope that was made inside another has that one as its outer link, and an environment lists the
scopes that are met by following links. A table of links says for every scope of a machine what its
outer link is. Evaluation only adds to the table: the environments that are held anywhere agree with
it before and after. Together with the bound on what evaluation binds this says that existing
environments stay as they are, except for the bindings of the one that code is evaluated in.
-/

set_option autoImplicit false

namespace Script

/-- The outer link of every scope, by the places of the scopes. An outermost scope has none. -/
abbrev LinkTable := List (Option ScopeId)

/-- Each scope of the environment is in the table, and linked to the scope that comes after it. -/
def Env.Linked (links : LinkTable) (env : Env) : Prop :=
  ∀ scope outer, scope :: outer <:+ env.chain → links[scope]? = some outer.head?

/-- The table has an entry for every scope of the machine, and the environments that are held by
bindings agree with it. -/
structure Machine.Linked (links : LinkTable) (machine : Machine) : Prop where
  size_eq : machine.store.scopes.size = links.length
  bindings : machine.store.HoldsOnly (fun _ => True) (Env.Linked links)

theorem Env.Linked.mono {links links' : LinkTable} (grown : links <+: links') {env : Env}
    (linked : env.Linked links) : env.Linked links' := by
  intro scope outer chained
  obtain ⟨added, rfl⟩ := grown
  have found := linked scope outer chained
  have inside : scope < links.length := (List.getElem?_eq_some_iff.mp found).1
  rw [List.getElem?_append_left inside, found]

/-- A scope that is added inside an environment is linked to the nearest scope of that. -/
theorem Env.Linked.nest {links : LinkTable} {env : Env} (linked : env.Linked links) :
    (env.nest links.length).Linked (links ++ [some env.scope]) := by
  intro scope outer chained
  rcases List.suffix_cons_iff.mp chained with here | inside
  · cases here
    exact List.getElem?_concat_length
  · exact linked.mono (List.prefix_append links [some env.scope]) scope outer inside

namespace Machine.Linked

variable {links : LinkTable} {machine : Machine}

theorem set (linked : machine.Linked links) (env : Env) (name : String) {value : Value}
    (only : value.HoldsOnly (Env.Linked links)) : (machine.set env name value).Linked links where
  size_eq := by
    rw [← linked.size_eq]
    exact Array.size_modify
  bindings := linked.bindings.set env.scope name only

theorem enter (linked : machine.Linked links) (env : Env) (parameters : List Token)
    {arguments : List Value} (only : ∀ value ∈ arguments, value.HoldsOnly (Env.Linked links)) :
    (machine.newScope env (.ofArguments parameters arguments)).2.enterCall.Linked
      (links ++ [some env.scope]) where
  size_eq := by
    rw [List.length_append, ← linked.size_eq]
    exact Array.size_push _
  bindings :=
    (linked.bindings.add_ofArguments parameters only).mono fun _ held =>
      held.mono (List.prefix_append links [some env.scope])

end Machine.Linked

def Correspondence.linking : Correspondence where
  World := LinkTable
  grows := (· <+: ·)
  refs _ := (· = ·)
  envs links := Env.Same (Env.Linked links)
  machines links machine machine' := machine = machine' ∧ machine.Linked links
  grows_refl _ := List.prefix_rfl
  grows_trans := List.IsPrefix.trans
  refs_grow _ same := same
  envs_grow grown same := ⟨same.1, same.2.mono grown⟩
  order_eq related same := by rw [related.1, same]
  refs_unique _ _ _ _ same same' := by rw [same, same']
  get? name related sameEnv := by
    obtain ⟨rfl, linked⟩ := related
    obtain ⟨rfl, _⟩ := sameEnv
    exact linked.bindings.find?_matches (fun _ _ => trivial) name
  set name related sameEnv same := by
    obtain ⟨rfl, linked⟩ := related
    obtain ⟨rfl, _⟩ := sameEnv
    cases same.eq_of_same
    exact ⟨rfl, linked.set _ name same.holdsOnly⟩
  allocate related := by
    obtain ⟨rfl, linked⟩ := related
    exact ⟨_, List.prefix_rfl, rfl, rfl, linked.size_eq, linked.bindings⟩
  write text related := by
    obtain ⟨rfl, linked⟩ := related
    exact ⟨rfl, rfl, linked.size_eq, linked.bindings⟩
  enter parameters related sameEnv same := by
    obtain ⟨rfl, linked⟩ := related
    obtain ⟨rfl, linkedEnv⟩ := sameEnv
    cases Value.Matches.items_eq_of_same same
    refine ⟨_, List.prefix_append _ _, ⟨rfl, ?_⟩, rfl,
      linked.enter _ parameters (Value.Matches.items_holdsOnly same)⟩
    have nested := linkedEnv.nest
    rw [← linked.size_eq] at nested
    exact nested
  leave related := by
    obtain ⟨rfl, linked⟩ := related
    exact ⟨rfl, linked.size_eq, linked.bindings⟩

/-! ## Tasks and how they end -/

/-- The environment is the one that the task works in, or is held by a value given to it. -/
def Task.Holds : Task → Env → Prop
  | .expr env _, held | .exprs env _, held | .block env _, held | .stmt env _, held
  | .program env _, held => held = env
  | .pairs env entries _, held => held = env ∨ ∃ entry ∈ entries, entry.2.Holds held
  | .stmts env last _, held => held = env ∨ ∃ value ∈ last, value.Holds held
  | .call callee arguments, held => ∃ value ∈ callee :: arguments, value.Holds held

def Outcome.Holds : Outcome → Env → Prop
  | .value result, held => result.Holds held
  | .values results, held => ∃ value ∈ results, value.Holds held
  | .entries found, held => ∃ entry ∈ found, entry.2.Holds held
  | .last result, held => ∃ value ∈ result, value.Holds held

def Interrupt.Holds : Interrupt → Env → Prop
  | .failed _, _ => False
  | .returned value, held => value.Holds held

def Activity.EndHolds : Except Interrupt Outcome → Env → Prop
  | .ok outcome, held => outcome.Holds held
  | .error interrupt, held => interrupt.Holds held

private theorem Task.holds_iff {task : Task} {held : Env} :
    task.Holds held ↔ held ∈ task.env? ∨ ∃ value ∈ task.inputs, value.Holds held := by
  cases task with
  | pairs env entries codes => grind [Task.Holds, Task.env?, Task.inputs]
  | _ => simp [Task.Holds, Task.env?, Task.inputs, eq_comm]

private theorem Activity.endHolds_iff {ending : Except Interrupt Outcome} {held : Env} :
    EndHolds ending held ↔ ∃ value ∈ endValues ending, value.Holds held := by
  match ending with
  | .ok (.entries found) => grind [EndHolds, Outcome.Holds, endValues, Outcome.contents]
  | .ok (.value _) | .ok (.values _) | .ok (.last _) =>
      simp [EndHolds, Outcome.Holds, endValues, Outcome.contents]
  | .error (.failed _) | .error (.returned _) => simp [EndHolds, Interrupt.Holds, endValues]

private theorem Correspondence.linking_tasks {links : LinkTable} {task : Task}
    (linked : ∀ env, task.Holds env → env.Linked links) :
    linking.simulation.tasks links task task := by
  apply Simulation.tasks_self
  · intro env isEnv
    exact ⟨rfl, linked env (Task.holds_iff.mpr (.inl isEnv))⟩
  · intro value member
    refine Value.HoldsOnly.matches value fun env held => ?_
    exact linked env (Task.holds_iff.mpr (.inr ⟨value, member, held⟩))

/-- Evaluation adds scopes, and changes no existing one except for the bindings of the scope that it
works in, where it keeps all names. Every outer link stays as it was, on any table of links that the
environments at hand agree with. -/
theorem Activity.start_keeps_environments (limit : Nat) (task : Task) (machine : Machine) :
    machine.Framed task.scope? (start limit task machine).finish.2 ∧
      ∀ links : LinkTable, machine.Linked links → (∀ env, task.Holds env → env.Linked links) →
        ∃ added : LinkTable,
          (start limit task machine).finish.2.Linked (links ++ added) ∧
            ∀ env, EndHolds (start limit task machine).finish.1 env →
              env.Linked (links ++ added) := by
  constructor
  · exact task.run_framed limit (limit - machine.depth) machine
  · intro links linked linkedTask
    obtain ⟨_, ⟨added, rfl⟩, ⟨_, linkedAfter⟩, same⟩ :=
      Simulation.finish_self Correspondence.linking.steady (start limit task machine)
        ⟨rfl, linked⟩ (Correspondence.linking_tasks linkedTask)
    refine ⟨added, linkedAfter, fun env holds => ?_⟩
    obtain ⟨value, member, held⟩ := endHolds_iff.mp holds
    exact (same value member).holdsOnly env held

def Activity.identityCall : Task :=
  .call (.function 0 ⟨[⟨.ident, "x"⟩], ⟨⟨.openBrace, "\x7b"⟩,
    [.expr ⟨.ident, "x"⟩ (.ident ⟨.ident, "x"⟩)]⟩, ⟨1, [0]⟩⟩) [.int 5]

/-- An outermost scope and one inside it, without bindings, are linked. -/
theorem Activity.start_keeps_environments_identity :
    let machine : Machine := .ofScopes #[.empty, .empty] 1
    machine.Linked [none, some 0] ∧
      (∀ env, identityCall.Holds env → env.Linked [none, some 0]) ∧
      machine.Framed none (start 256 identityCall machine).finish.2 ∧
      ∃ added : LinkTable,
        (start 256 identityCall machine).finish.2.Linked ([none, some 0] ++ added) := by
  intro machine
  have linked : machine.Linked [none, some 0] := by
    refine ⟨rfl, fun scope _ name value found => ?_⟩
    match scope, found with
    | 0, found | 1, found | scope + 2, found => cases found
  have linkedTask : ∀ env, identityCall.Holds env → env.Linked [none, some 0] := by
    have outermost : Env.Linked [none] ⟨0, []⟩ := by
      intro scope outer chained
      rcases List.suffix_cons_iff.mp chained with here | inside
      · cases here
        rfl
      · cases List.suffix_nil.mp inside
    rintro env ⟨value, member, held⟩
    cases member with
    | head =>
        cases held
        exact outermost.nest
    | tail _ member =>
        cases member with
        | head => cases held
        | tail _ member => cases member
  obtain ⟨framed, keeps⟩ := start_keeps_environments 256 identityCall machine
  obtain ⟨added, linkedAfter, _⟩ := keeps _ linked linkedTask
  exact ⟨linked, linkedTask, framed, added, linkedAfter⟩

end Script
