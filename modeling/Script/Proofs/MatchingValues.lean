import Script.Proofs.RelatedValues

/-!
# Values up to identities and environments

Two values match when they differ in identities and captured environments only. Matching values
cannot be told apart by their kind, their text, by what they count as in a condition or as a map
key, or by comparing identities on each side.
-/

set_option autoImplicit false

namespace Script

/-- Two values that differ in identities and captured environments only, and there as `refs` and
`envs` allow. -/
inductive Value.Matches (refs : Ref → Ref → Prop) (envs : Env → Env → Prop) :
    Value → Value → Prop where
  | null : Matches refs envs .null .null
  | bool (b : Bool) : Matches refs envs (.bool b) (.bool b)
  | int (n : Int64) : Matches refs envs (.int n) (.int n)
  | str {ref ref' : Ref} (text : String) :
      refs ref ref' → Matches refs envs (.str ref text) (.str ref' text)
  | list {ref ref' : Ref} {items items' : List Value} :
      refs ref ref' → List.Forall₂ (Matches refs envs) items items' →
      Matches refs envs (.list ref items) (.list ref' items')
  | map {ref ref' : Ref} {entries entries' : List (Key × Value)} :
      refs ref ref' → List.Forall₂ (EntryRel (Matches refs envs)) entries entries' →
      Matches refs envs (.map ref entries) (.map ref' entries')
  | function {ref ref' : Ref} (parameters : List Token) (body : Block) {env env' : Env} :
      refs ref ref' → envs env env' →
      Matches refs envs (.function ref ⟨parameters, body, env⟩)
        (.function ref' ⟨parameters, body, env'⟩)
  | builtin (native : Builtin) : Matches refs envs (.builtin native) (.builtin native)
  | returned {value value' : Value} :
      Matches refs envs value value' → Matches refs envs (.returned value) (.returned value')
  | error (cause : RuntimeError) : Matches refs envs (.error cause) (.error cause)

namespace Value.Matches

variable {refs refs' : Ref → Ref → Prop} {envs envs' : Env → Env → Prop} {value value' : Value}

mutual

/-- Values still match when more identities and environments may stand for each other. -/
theorem mono (moreRefs : ∀ ref ref', refs ref ref' → refs' ref ref')
    (moreEnvs : ∀ env env', envs env env' → envs' env env') :
    {value value' : Value} → Matches refs envs value value' → Matches refs' envs' value value'
  | _, _, .null => .null
  | _, _, .bool b => .bool b
  | _, _, .int n => .int n
  | _, _, .str text sameRef => .str text (moreRefs _ _ sameRef)
  | _, _, .list sameRef items => .list (moreRefs _ _ sameRef) (mono_items moreRefs moreEnvs items)
  | _, _, .map sameRef entries =>
      .map (moreRefs _ _ sameRef) (mono_entries moreRefs moreEnvs entries)
  | _, _, .function parameters body sameRef sameEnv =>
      .function parameters body (moreRefs _ _ sameRef) (moreEnvs _ _ sameEnv)
  | _, _, .builtin native => .builtin native
  | _, _, .returned inner => .returned (mono moreRefs moreEnvs inner)
  | _, _, .error cause => .error cause

theorem mono_items (moreRefs : ∀ ref ref', refs ref ref' → refs' ref ref')
    (moreEnvs : ∀ env env', envs env env' → envs' env env') :
    {items items' : List Value} → List.Forall₂ (Matches refs envs) items items' →
      List.Forall₂ (Matches refs' envs') items items'
  | _, _, .nil => .nil
  | _, _, .cons first rest =>
      .cons (mono moreRefs moreEnvs first) (mono_items moreRefs moreEnvs rest)

theorem mono_entries (moreRefs : ∀ ref ref', refs ref ref' → refs' ref ref')
    (moreEnvs : ∀ env env', envs env env' → envs' env env') :
    {entries entries' : List (Key × Value)} →
      List.Forall₂ (EntryRel (Matches refs envs)) entries entries' →
      List.Forall₂ (EntryRel (Matches refs' envs')) entries entries'
  | _, _, .nil => .nil
  | _, _, .cons (.mk key first) rest =>
      .cons (.mk key (mono moreRefs moreEnvs first)) (mono_entries moreRefs moreEnvs rest)

end

mutual

/-- Identities and environments do not show in the text of a value, as long as the maps that stand
for each other are arranged alike. -/
theorem render_eq {arrangement arrangement' : Arrangement}
    (arranged : ∀ ref ref', refs ref ref' → arrangement.order ref = arrangement'.order ref') :
    {value value' : Value} → Matches refs envs value value' →
      value.render arrangement = value'.render arrangement'
  | _, _, .null | _, _, .bool _ | _, _, .int _ | _, _, .str _ _ | _, _, .function _ _ _ _
  | _, _, .builtin _ | _, _, .error _ => rfl
  | _, _, .list _ items => by rw [Value.render, Value.render, render_items_eq arranged items]
  | _, _, .map sameRef entries => by
      rw [Value.render, Value.render, render_entries_eq arranged entries, arranged _ _ sameRef]
  | _, _, .returned inner => by rw [Value.render, Value.render, render_eq arranged inner]

theorem render_items_eq {arrangement arrangement' : Arrangement}
    (arranged : ∀ ref ref', refs ref ref' → arrangement.order ref = arrangement'.order ref') :
    {items items' : List Value} → List.Forall₂ (Matches refs envs) items items' →
      Value.renderAll arrangement items = Value.renderAll arrangement' items'
  | _, _, .nil => rfl
  | _, _, .cons first rest => by
      rw [Value.renderAll, Value.renderAll, render_eq arranged first,
        render_items_eq arranged rest]

theorem render_entries_eq {arrangement arrangement' : Arrangement}
    (arranged : ∀ ref ref', refs ref ref' → arrangement.order ref = arrangement'.order ref') :
    {entries entries' : List (Key × Value)} →
      List.Forall₂ (EntryRel (Matches refs envs)) entries entries' →
      Value.renderEntries arrangement entries = Value.renderEntries arrangement' entries'
  | _, _, .nil => rfl
  | _, _, .cons (.mk _ first) rest => by
      rw [Value.renderEntries, Value.renderEntries, render_eq arranged first,
        render_entries_eq arranged rest]

end

theorem alike (same : Matches refs envs value value') :
    Value.Alike (Matches refs envs) value value' := by
  cases same with
  | null => exact .atom .null
  | bool b => exact .atom (.bool b)
  | int n => exact .atom (.int n)
  | str text _ => exact .str _ _ text
  | list _ items => exact .list _ _ items
  | map _ entries => exact .map _ _ entries
  | function parameters body _ _ => exact .function _ _ parameters body _ _
  | builtin native => exact .atom (.builtin native)
  | returned inner => exact .returned inner
  | error cause => exact .error cause

/-- Values that are made from matching ones match when their identities stand for each other. -/
theorem of_made {ref ref' : Ref} (sameRef : refs ref ref')
    (made : Value.Made (Matches refs envs) envs ref ref' value value') :
    Matches refs envs value value' := by
  cases made with
  | str text => exact .str text sameRef
  | list items => exact .list sameRef items
  | map entries => exact .map sameRef entries
  | function parameters body sameEnv => exact .function parameters body sameRef sameEnv

/-- Comparing identities gives the same on both sides when no identity stands for two. -/
theorem identical_eq {other other' : Value}
    (unique : ∀ a a' b b', refs a a' → refs b b' → (a = b ↔ a' = b'))
    (same : Matches refs envs value value') (sameOther : Matches refs envs other other') :
    value.identical other = value'.identical other' := by
  cases same with
  | str _ sameRef =>
      cases sameOther with
      | str _ sameRef' => simp only [Value.identical, unique _ _ _ _ sameRef sameRef']
      | _ => rfl
  | list sameRef _ =>
      cases sameOther with
      | list sameRef' _ => simp only [Value.identical, unique _ _ _ _ sameRef sameRef']
      | _ => rfl
  | map sameRef _ =>
      cases sameOther with
      | map sameRef' _ => simp only [Value.identical, unique _ _ _ _ sameRef sameRef']
      | _ => rfl
  | function _ _ sameRef _ =>
      cases sameOther with
      | function _ _ sameRef' _ => simp only [Value.identical, unique _ _ _ _ sameRef sameRef']
      | _ => rfl
  | _ => cases sameOther <;> rfl

end Value.Matches

end Script
