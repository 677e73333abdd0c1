import TuneScript.Engine.Table

/-!
Tables after a change: what their entries are, what is found under a key, and in which order
the keys stand.
-/

namespace TuneScript

@[simp]
theorem Value.same_text {s : String} {v : Value} : (Value.text s).same v = true ↔ v = .text s := by
  cases v with
  | text t =>
      change (false || s == t) = true ↔ _
      rw [Bool.false_or, beq_iff_eq, Value.text.injEq]
      exact eq_comm
  | _ => exact iff_of_false Bool.false_ne_true nofun

namespace Table

variable {α : Type} {table : Table α}

/-- An entry is old, or new, or it was changed under its key. -/
theorem mem_update {key : Value} {change : Option α → α} {entry : Value × α}
    (h : entry ∈ table.update key change) :
    entry ∈ table ∨ entry = (key, change none) ∨
      ∃ a, (entry.1, a) ∈ table ∧ entry.2 = change (some a) := by
  induction table with
  | nil => exact .inr (.inl (List.mem_singleton.1 h))
  | cons old rest ih =>
      obtain ⟨k, a⟩ := old
      simp only [update] at h
      split at h
      · rcases List.mem_cons.1 h with rfl | h
        · exact .inr (.inr ⟨a, List.mem_cons_self, rfl⟩)
        · exact .inl (List.mem_cons_of_mem _ h)
      · rcases List.mem_cons.1 h with rfl | h
        · exact .inl List.mem_cons_self
        · rcases ih h with h | h | ⟨b, hb, heq⟩
          · exact .inl (List.mem_cons_of_mem _ h)
          · exact .inr (.inl h)
          · exact .inr (.inr ⟨b, List.mem_cons_of_mem _ hb, heq⟩)

theorem mem_of_find? {key : Value} {a : α} (h : table.find? key = some a) :
    ∃ k, (k, a) ∈ table := by
  obtain ⟨entry, hentry, rfl⟩ := Option.map_eq_some_iff.1 h
  exact ⟨entry.1, List.mem_of_find?_eq_some hentry⟩

theorem mem_insert {key : Value} {a : α} {entry : Value × α} (h : entry ∈ table.insert key a) :
    entry ∈ table ∨ entry.2 = a := by
  rcases mem_update h with h | rfl | ⟨_, _, h⟩
  · exact .inl h
  · exact .inr rfl
  · exact .inr h

/-- The keys of a table, in their order. -/
def keys (table : Table α) : List Value := table.map Prod.fst

theorem find?_cons (k : Value) (a : α) (rest : Table α) (key : Value) :
    find? ((k, a) :: rest) key = if k.same key then some a else rest.find? key := by
  rw [find?, List.find?_cons]
  cases k.same key <;> rfl

/-- Changing the entry of one text leaves those of all others. -/
theorem find?_update {names : List String} (hkeys : table.keys = names.map .text) (s t : String)
    (change : Option α → α) :
    (table.update (.text s) change).find? (.text t) =
      if t = s then some (change (table.find? (.text t))) else table.find? (.text t) := by
  induction table generalizing names with
  | nil =>
      rw [update, find?_cons]
      simp only [Value.same_text, Value.text.injEq]
      rfl
  | cons entry rest ih =>
      obtain ⟨k, a⟩ := entry
      obtain ⟨name, names, rfl, rfl, hrest⟩ := List.map_eq_cons_iff.1 hkeys.symm
      rw [update]
      split
      · next hsame =>
        cases Value.same_text.1 hsame
        simp only [find?_cons, Value.same_text, Value.text.injEq]
        grind
      · next hdiff =>
        rw [find?_cons, find?_cons, ih hrest.symm]
        simp only [Value.same_text, Value.text.injEq] at hdiff ⊢
        grind

/-- What is found under a text in a table with a new entry was found there before, or is new. -/
theorem find?_insert {key : Value} {a b : α} {x : String}
    (h : (table.insert key a).find? (.text x) = some b) :
    table.find? (.text x) = some b ∨ key = .text x ∧ b = a := by
  have htext {k : Value} (hk : k.same (.text x) = true) : k = .text x := by
    cases k with
    | text t => exact (Value.same_text.1 hk).symm
    | _ => cases hk
  rw [insert] at h
  induction table with
  | nil =>
      rw [update, find?_cons] at h
      split at h
      · next hsame =>
        cases h
        exact .inr ⟨htext hsame, rfl⟩
      · cases h
  | cons entry rest ih =>
      obtain ⟨k, c⟩ := entry
      rw [find?_cons]
      rw [update] at h
      split at h
      · next hkey =>
        rw [find?_cons] at h
        split at h
        · next hsame =>
          cases h
          cases htext hsame
          exact .inr ⟨Value.same_text.1 hkey, rfl⟩
        · next hother =>
          rw [if_neg hother]
          exact .inl h
      · rw [find?_cons] at h
        split at h
        · next hsame =>
          rw [if_pos hsame]
          exact .inl h
        · next hother =>
          rw [if_neg hother]
          exact ih h

/-- A new entry hides no other one. -/
theorem isSome_find?_insert {found : Value} (h : (table.find? found).isSome = true) (key : Value)
    (a : α) : ((table.insert key a).find? found).isSome = true := by
  rw [insert]
  induction table with
  | nil => cases h
  | cons entry rest ih =>
      obtain ⟨k, b⟩ := entry
      rw [find?_cons] at h
      rw [update]
      split
      · rw [find?_cons]
        split
        · rfl
        · next hother =>
          rw [if_neg hother] at h
          exact h
      · rw [find?_cons]
        split
        · rfl
        · next hother =>
          rw [if_neg hother] at h
          exact ih h

/-- What is found under a text does not change with the entry of another key. -/
theorem find?_insert_of_ne {key : Value} {x : String} (hkey : key ≠ .text x) (a : α) :
    (table.insert key a).find? (.text x) = table.find? (.text x) := by
  cases hnew : (table.insert key a).find? (.text x) with
  | some b =>
      rcases find?_insert hnew with hold | ⟨hsame, -⟩
      · exact hold.symm
      · exact absurd hsame hkey
  | none =>
      cases hold : table.find? (.text x) with
      | none => rfl
      | some b =>
          have hsome := isSome_find?_insert (Option.isSome_iff_exists.2 ⟨b, hold⟩) key a
          rw [hnew] at hsome
          cases hsome

theorem find?_insert_self (x : String) (a : α) :
    (table.insert (.text x) a).find? (.text x) = some a := by
  have hself : (Value.text x).same (.text x) = true := Value.same_text.2 rfl
  rw [insert]
  induction table with
  | nil => rw [update, find?_cons, if_pos hself]
  | cons entry rest ih =>
      obtain ⟨k, b⟩ := entry
      rw [update]
      split
      · next hkey => rw [find?_cons, if_pos hkey]
      · next hkey => rw [find?_cons, if_neg hkey, ih]

/-- A text that is no key yet becomes the last one. -/
theorem keys_update {names : List String} (hkeys : table.keys = names.map .text) (s : String)
    (change : Option α → α) :
    (table.update (.text s) change).keys =
      (if s ∈ names then names else names ++ [s]).map .text := by
  induction table generalizing names with
  | nil =>
      cases List.map_eq_nil_iff.1 hkeys.symm
      rfl
  | cons entry rest ih =>
      obtain ⟨k, a⟩ := entry
      obtain ⟨name, names, rfl, rfl, hrest⟩ := List.map_eq_cons_iff.1 hkeys.symm
      rw [update]
      split
      · next hsame =>
        cases Value.same_text.1 hsame
        rw [if_pos List.mem_cons_self]
        exact hkeys
      · next hdiff =>
        have hne : s ≠ name := fun h => hdiff (Value.same_text.2 (congrArg Value.text h))
        change Value.text name :: keys (update rest _ _) = _
        rw [ih hrest.symm]
        simp only [List.mem_cons, hne, false_or]
        split <;> rfl

end Table
end TuneScript
