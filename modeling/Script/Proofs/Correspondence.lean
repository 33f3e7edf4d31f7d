import Script.Proofs.MatchingValues
import Script.Proofs.SimulatedRuns

/-!
# Corresponding runs

Two machines can correspond without being equal: an identity or an environment of the one stands
for another of the other. Evaluating the same code on both keeps the correspondence and gives
matching results, because evaluation looks at identities only to compare them and to arrange maps,
and at environments only to look names up in them and to bind names.
-/

set_option autoImplicit false

namespace Script

/-- A way in which machines can correspond: what stands for what in a world, and that the steps of
evaluation keep it so. -/
structure Correspondence where
  World : Type
  /-- The second world relates all that the first does. -/
  grows : World → World → Prop
  refs : World → Ref → Ref → Prop
  envs : World → Env → Env → Prop
  machines : World → Machine → Machine → Prop
  grows_refl (world : World) : grows world world
  grows_trans {world world' world'' : World} :
    grows world world' → grows world' world'' → grows world world''
  refs_grow {world world' : World} {ref ref' : Ref} :
    grows world world' → refs world ref ref' → refs world' ref ref'
  envs_grow {world world' : World} {env env' : Env} :
    grows world world' → envs world env env' → envs world' env env'
  /-- Maps that stand for each other show their entries in the same order. -/
  order_eq {world : World} {machine machine' : Machine} {ref ref' : Ref} :
    machines world machine machine' → refs world ref ref' →
    machine.arrangement.order ref = machine'.arrangement.order ref'
  refs_unique {world : World} (a a' b b' : Ref) :
    refs world a a' → refs world b b' → (a = b ↔ a' = b')
  get? {world : World} {machine machine' : Machine} {env env' : Env} (name : String) :
    machines world machine machine' → envs world env env' →
    Option.Rel (Value.Matches (refs world) (envs world)) (machine.get? env name)
      (machine'.get? env' name)
  set {world : World} {machine machine' : Machine} {env env' : Env} {value value' : Value}
    (name : String) :
    machines world machine machine' → envs world env env' →
    Value.Matches (refs world) (envs world) value value' →
    machines world (machine.set env name value) (machine'.set env' name value')
  allocate {world : World} {machine machine' : Machine} :
    machines world machine machine' →
    ∃ world', grows world world' ∧ refs world' machine.nextRef machine'.nextRef ∧
      machines world' { machine with nextRef := machine.nextRef + 1 }
        { machine' with nextRef := machine'.nextRef + 1 }
  write {world : World} {machine machine' : Machine} (text : String) :
    machines world machine machine' →
    (Run.write text machine).1 = (Run.write text machine').1 ∧
      machines world (Run.write text machine).2 (Run.write text machine').2
  enter {world : World} {machine machine' : Machine} {env env' : Env}
    {arguments arguments' : List Value} (parameters : List Token) :
    machines world machine machine' → envs world env env' →
    List.Forall₂ (Value.Matches (refs world) (envs world)) arguments arguments' →
    ∃ world', grows world world' ∧
      envs world' (machine.newScope env (.ofArguments parameters arguments)).1
        (machine'.newScope env' (.ofArguments parameters arguments')).1 ∧
      machines world' (machine.newScope env (.ofArguments parameters arguments)).2.enterCall
        (machine'.newScope env' (.ofArguments parameters arguments')).2.enterCall
  leave {world : World} {machine machine' : Machine} :
    machines world machine machine' → machines world machine.leaveCall machine'.leaveCall

namespace Correspondence

def simulation (C : Correspondence) : Simulation where
  World := C.World
  grows := C.grows
  opens := C.grows
  values world := Value.Matches (C.refs world) (C.envs world)
  envs := C.envs
  machines := C.machines
  stops _ := False
  behind _ _ := True
  grows_refl := C.grows_refl
  grows_trans := C.grows_trans
  values_grow grown same := same.mono (fun _ _ => C.refs_grow grown) fun _ _ => C.envs_grow grown
  envs_grow := C.envs_grow
  atoms isAtom := by cases isAtom <;> constructor
  alike same := same.alike
  identical_eq same sameOther := same.identical_eq C.refs_unique sameOther
  render_eq related same := same.render_eq fun _ _ => C.order_eq related
  get? := C.get?
  set := C.set
  make related made := by
    obtain ⟨world', grown, sameRef, related'⟩ := C.allocate related
    have made' := made.mono (fun _ _ same => same.mono (fun _ _ => C.refs_grow grown)
      fun _ _ => C.envs_grow grown) fun _ _ => C.envs_grow grown
    exact ⟨world', grown, .of_made sameRef made', related'⟩
  write text related := .inl (C.write text related)
  later _ _ := trivial
  enter related same sameArguments := by
    cases same with
    | function _ _ _ sameEnv => exact C.enter _ related sameEnv sameArguments
  leave opens grown related := ⟨_, C.grows_trans opens grown, C.leave related, fun _ _ same => same⟩
  values_self never := never.elim
  envs_self never := never.elim

theorem steady (C : Correspondence) : C.simulation.Steady where
  unstopped := fun ⟨_, never⟩ => never
  grows_of_opens opens := opens

end Correspondence

end Script
