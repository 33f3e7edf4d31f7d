/-!
# Association lists

Lists of pairs in which two keys count as the same when they have the same digest. Inserting under
a digest that is present replaces that pair, key included, and keeps its place; otherwise the pair
goes to the end. The digest of a name is the name itself.
-/

set_option autoImplicit false

namespace Script.Assoc

variable {κ δ α : Type} [DecidableEq δ] (digest : κ → δ)

def find? (target : δ) : List (κ × α) → Option α
  | [] => none
  | (key, value) :: rest => if digest key = target then some value else find? target rest

/-- Put `value` under `key`, in place of a pair whose key has the same digest. -/
def insert (key : κ) (value : α) : List (κ × α) → List (κ × α)
  | [] => [(key, value)]
  | (key', value') :: rest =>
      if digest key' = digest key then (key, value) :: rest
      else (key', value') :: insert key value rest

@[simp]
theorem find?_nil (target : δ) : find? digest target ([] : List (κ × α)) = none := rfl

/-- Reading after writing: the new value under the digest of the written key, and what was there
before under any other. -/
theorem find?_insert (key : κ) (value : α) (target : δ) (entries : List (κ × α)) :
    find? digest target (insert digest key value entries) =
      if digest key = target then some value else find? digest target entries := by
  induction entries with
  | nil => simp [insert, find?]
  | cons entry rest ih =>
      obtain ⟨key', value'⟩ := entry
      by_cases same : digest key' = digest key
      · by_cases hit : digest key = target <;> simp [insert, find?, same, hit]
      · rw [insert, if_neg same, find?, find?, ih]
        by_cases hit : digest key' = target
        · have apart : ¬ digest key = target := fun equal => same (hit.trans equal.symm)
          rw [if_pos hit, if_neg apart, if_pos hit]
        · rw [if_neg hit, if_neg hit]

/-- The digests after writing: none goes away and the written one is present. -/
theorem mem_digests_insert (key : κ) (value : α) (target : δ) (entries : List (κ × α)) :
    target ∈ (insert digest key value entries).map (fun entry => digest entry.1) ↔
      target = digest key ∨ target ∈ entries.map (fun entry => digest entry.1) := by
  induction entries with
  | nil => simp [insert]
  | cons entry rest ih =>
      obtain ⟨key', value'⟩ := entry
      by_cases same : digest key' = digest key
      · simp [insert, same]
      · simp only [insert, same, if_false, List.map_cons, List.mem_cons, ih]
        constructor
        · rintro (equal | equal | present)
          · exact Or.inr (Or.inl equal)
          · exact Or.inl equal
          · exact Or.inr (Or.inr present)
        · rintro (equal | equal | present)
          · exact Or.inr (Or.inl equal)
          · exact Or.inl equal
          · exact Or.inr (Or.inr present)

/-- Writing keeps the digests distinct. -/
theorem nodup_digests_insert (key : κ) (value : α) {entries : List (κ × α)}
    (distinct : (entries.map (fun entry => digest entry.1)).Nodup) :
    ((insert digest key value entries).map (fun entry => digest entry.1)).Nodup := by
  induction entries with
  | nil => simp [insert]
  | cons entry rest ih =>
      obtain ⟨key', value'⟩ := entry
      simp only [List.map_cons, List.nodup_cons] at distinct
      by_cases same : digest key' = digest key
      · simp only [insert, same, if_true, List.map_cons, List.nodup_cons]
        exact ⟨same ▸ distinct.1, distinct.2⟩
      · simp only [insert, same, if_false, List.map_cons, List.nodup_cons]
        refine ⟨fun present => ?_, ih distinct.2⟩
        rcases (mem_digests_insert digest key value _ rest).mp present with equal | absent
        · exact same equal
        · exact distinct.1 absent

end Script.Assoc
