/-!
# Tables ordered by key

A finite map from natural numbers, kept as a list in strictly ascending key
order. The order is part of the type, so a table lists its contents in one way
only: `ext` says that two tables which answer every look-up alike are equal.

Every operation is described by what it does to look-ups: `find?_insert`,
`find?_erase` and `find?_modify`.

In the kernel such a table is the ordered map of its standard library.
-/

namespace DemandPaging

/-- A finite map from natural numbers whose bindings are listed by ascending key. -/
structure KeyedTable (α : Type) where
  bindings : List (Nat × α)
  ascending : bindings.Pairwise fun a b => a.1 < b.1

namespace KeyedTable

variable {α : Type}

/-- Put `value` at `key` into an ascending list, in place of what was there. -/
def insertBinding (key : Nat) (value : α) : List (Nat × α) → List (Nat × α)
  | [] => [(key, value)]
  | b :: rest =>
    if key < b.1 then (key, value) :: b :: rest
    else if key = b.1 then (key, value) :: rest
    else b :: insertBinding key value rest

theorem mem_insertBinding {key : Nat} {value : α} {bs : List (Nat × α)} {b : Nat × α}
    (h : b ∈ insertBinding key value bs) : b = (key, value) ∨ b ∈ bs := by
  induction bs with
  | nil => simpa [insertBinding] using h
  | cons c rest ih =>
    unfold insertBinding at h
    split at h
    · simpa using h
    · split at h
      · rcases List.mem_cons.mp h with h | h
        · exact Or.inl h
        · exact Or.inr (List.mem_cons_of_mem _ h)
      · rcases List.mem_cons.mp h with h | h
        · exact Or.inr (h ▸ List.mem_cons_self ..)
        · exact (ih h).imp id (List.mem_cons_of_mem _)

theorem ascending_insertBinding {key : Nat} {value : α} {bs : List (Nat × α)}
    (h : bs.Pairwise fun a b => a.1 < b.1) :
    (insertBinding key value bs).Pairwise fun a b => a.1 < b.1 := by
  induction bs with
  | nil => simp [insertBinding]
  | cons c rest ih =>
    have hhead := (List.pairwise_cons.mp h).1
    have htail := (List.pairwise_cons.mp h).2
    unfold insertBinding
    split
    next hlt =>
      refine List.pairwise_cons.mpr ⟨fun b hb => ?_, h⟩
      rcases List.mem_cons.mp hb with rfl | hb
      · exact hlt
      · exact Nat.lt_trans hlt (hhead b hb)
    next hlt =>
      split
      next heq => exact List.pairwise_cons.mpr ⟨fun b hb => heq ▸ hhead b hb, htail⟩
      next hne =>
        refine List.pairwise_cons.mpr ⟨fun b hb => ?_, ih htail⟩
        rcases mem_insertBinding hb with rfl | hb
        · show c.1 < key
          omega
        · exact hhead b hb

/-- The table without bindings. -/
def empty : KeyedTable α := ⟨[], List.Pairwise.nil⟩

instance : Inhabited (KeyedTable α) := ⟨empty⟩

instance : EmptyCollection (KeyedTable α) := ⟨empty⟩

/-- What the table holds at `key`. -/
def find? (t : KeyedTable α) (key : Nat) : Option α :=
  (t.bindings.find? fun b => b.1 == key).map Prod.snd

/-- Whether the table holds anything at `key`. -/
def contains (t : KeyedTable α) (key : Nat) : Bool := (t.find? key).isSome

/-- Number of bindings. -/
def size (t : KeyedTable α) : Nat := t.bindings.length

/-- Whether there is no binding. -/
def isEmpty (t : KeyedTable α) : Bool := t.bindings.isEmpty

/-- The keys in ascending order. -/
def keys (t : KeyedTable α) : List Nat := t.bindings.map Prod.fst

/-- The values in ascending order of their keys. -/
def values (t : KeyedTable α) : List α := t.bindings.map Prod.snd

/-- Bind `key` to `value`, whatever it was bound to before. -/
def insert (t : KeyedTable α) (key : Nat) (value : α) : KeyedTable α :=
  ⟨insertBinding key value t.bindings, ascending_insertBinding t.ascending⟩

/-- Drop the binding of `key`, if there is one. -/
def erase (t : KeyedTable α) (key : Nat) : KeyedTable α :=
  ⟨t.bindings.filter fun b => b.1 != key, t.ascending.filter _⟩

/-- Apply `f` to what is bound to `key`, if anything is. -/
def modify (t : KeyedTable α) (key : Nat) (f : α → α) : KeyedTable α :=
  ⟨t.bindings.map fun b => if b.1 = key then (b.1, f b.2) else b, by
    refine List.pairwise_map.mpr (t.ascending.imp fun {a b} hab => ?_)
    split <;> split <;> exact hab⟩

theorem find?_bindings_cons (b : Nat × α) (rest : List (Nat × α)) (key : Nat) :
    ((b :: rest).find? fun b => b.1 == key)
      = if b.1 = key then some b else rest.find? fun b => b.1 == key := by
  by_cases h : b.1 = key
  · simp [h]
  · rw [List.find?_cons_of_neg (by simpa using h), if_neg h]

theorem find?_eq_none_of_lt {bs : List (Nat × α)} {key : Nat} (h : ∀ b ∈ bs, key < b.1) :
    (bs.find? fun b => b.1 == key) = none := by
  refine List.find?_eq_none.mpr fun b hb => ?_
  have := h b hb
  simp only [beq_iff_eq]
  omega

theorem find?_insertBinding {key k : Nat} {value : α} {bs : List (Nat × α)} :
    ((insertBinding key value bs).find? fun b => b.1 == k)
      = if k = key then some (key, value) else bs.find? fun b => b.1 == k := by
  induction bs with
  | nil =>
    rw [insertBinding, find?_bindings_cons]
    by_cases h : k = key
    · simp [h]
    · simp [h, Ne.symm h]
  | cons c rest ih =>
    unfold insertBinding
    split
    next hlt =>
      rw [find?_bindings_cons]
      by_cases h : k = key
      · simp [h]
      · simp [h, Ne.symm h]
    next hlt =>
      split
      next heq =>
        rw [find?_bindings_cons, find?_bindings_cons]
        by_cases h : k = key
        · simp [h]
        · rw [if_neg (Ne.symm h), if_neg h, if_neg (fun e => h (by omega))]
      next hne =>
        rw [find?_bindings_cons, find?_bindings_cons, ih]
        by_cases h : k = key
        · rw [if_neg (by omega), if_pos h, if_pos h]
        · rw [if_neg h, if_neg h]

/-- An insertion is seen at its own key and nowhere else. -/
theorem find?_insert (t : KeyedTable α) (key k : Nat) (value : α) :
    (t.insert key value).find? k = if k = key then some value else t.find? k := by
  unfold find? insert
  rw [find?_insertBinding]
  split <;> rfl

/-- An erased key is unbound and every other key keeps its binding. -/
theorem find?_erase (t : KeyedTable α) (key k : Nat) :
    (t.erase key).find? k = if k = key then none else t.find? k := by
  unfold find? erase
  simp only [List.find?_filter]
  by_cases h : k = key
  · subst h
    simp
  · rw [if_neg h]
    congr 2
    funext b
    by_cases hb : b.1 = k
    · simp [hb, h]
    · simp [hb]

theorem find?_map_bindings (bs : List (Nat × α)) (key k : Nat) (f : α → α) :
    ((bs.map fun b => if b.1 = key then (b.1, f b.2) else b).find? fun b => b.1 == k).map
        Prod.snd
      = ((bs.find? fun b => b.1 == k).map Prod.snd).map fun v => if k = key then f v else v := by
  induction bs with
  | nil => rfl
  | cons c rest ih =>
    have hfst : (if c.1 = key then (c.1, f c.2) else c).1 = c.1 := by split <;> rfl
    rw [List.map_cons, find?_bindings_cons, find?_bindings_cons, hfst]
    by_cases hk : c.1 = k
    · rw [if_pos hk, if_pos hk]
      by_cases hkey : k = key
      · simp [hkey, hk]
      · have : ¬ c.1 = key := by omega
        simp [hkey, this]
    · rw [if_neg hk, if_neg hk]
      exact ih

/-- A modification changes what is bound to its key and binds nothing new. -/
theorem find?_modify (t : KeyedTable α) (key k : Nat) (f : α → α) :
    (t.modify key f).find? k = (t.find? k).map fun v => if k = key then f v else v :=
  find?_map_bindings t.bindings key k f

theorem contains_eq_true_iff {t : KeyedTable α} {key : Nat} :
    t.contains key = true ↔ ∃ v, t.find? key = some v := by
  simp [contains, Option.isSome_iff_exists]

/-- A binding is listed exactly when looking up its key finds its value. -/
theorem mem_bindings_iff {t : KeyedTable α} {key : Nat} {value : α} :
    (key, value) ∈ t.bindings ↔ t.find? key = some value := by
  obtain ⟨bs, hbs⟩ := t
  show (key, value) ∈ bs ↔ (bs.find? fun b => b.1 == key).map Prod.snd = some value
  induction bs with
  | nil => simp
  | cons c rest ih =>
    have hhead := (List.pairwise_cons.mp hbs).1
    rw [List.mem_cons, ih (List.pairwise_cons.mp hbs).2, find?_bindings_cons]
    by_cases hk : c.1 = key
    · rw [if_pos hk, find?_eq_none_of_lt fun b hb => hk ▸ hhead b hb]
      constructor
      · rintro (h | h)
        · rw [← h]
          rfl
        · simp at h
      · intro h
        left
        obtain ⟨k, v⟩ := c
        simp_all
    · rw [if_neg hk]
      constructor
      · rintro (h | h)
        · exact absurd (h ▸ rfl) hk
        · exact h
      · exact Or.inr

/-- Two tables that answer every look-up alike are equal. -/
theorem ext {t u : KeyedTable α} (h : ∀ key, t.find? key = u.find? key) : t = u := by
  have hmem : ∀ b, b ∈ t.bindings ↔ b ∈ u.bindings := fun b => by
    rw [← Prod.eta b, mem_bindings_iff, mem_bindings_iff, h]
  have hlist : t.bindings = u.bindings := by
    have hnd {v : KeyedTable α} : v.bindings.Nodup :=
      v.ascending.imp fun {a b} hab heq => absurd (heq ▸ hab) (Nat.lt_irrefl _)
    have hperm : t.bindings.Perm u.bindings :=
      (List.perm_ext_iff_of_nodup hnd hnd).mpr hmem
    exact hperm.eq_of_pairwise (fun a b _ _ hab hba => absurd hba (Nat.lt_asymm hab))
      t.ascending u.ascending
  cases t
  cases u
  simpa using hlist

end KeyedTable

end DemandPaging
