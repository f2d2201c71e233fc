/-!
# Sequences of calls

A sequence of calls is a list, and what it makes of a state is a fold. `foldlM_simulates` is the
induction for calls that may be fatal: if one call does to a state what it does to another state
that stands for it, so does every sequence of calls. `lastOf?` looks back through a sequence of
calls for the last one that leaves something behind, and `length_eq_countP` counts numbers that are
left, such as keys or handles, by going through all that there can be.
-/

namespace DemandPaging

variable {σ τ ι ε α : Type}

/-- If no call is fatal where two states are related, and the states stay related, then no sequence
of calls is fatal and the states at the end are related. -/
theorem foldlM_simulates {R : σ → τ → Prop} {serve : σ → ι → Except ε σ} {serve' : τ → ι → τ}
    {calls : List ι}
    (hserve : ∀ call ∈ calls, ∀ s t, R s t → ∃ s', serve s call = .ok s' ∧ R s' (serve' t call))
    {s : σ} {t : τ} (h : R s t) :
    ∃ s', calls.foldlM serve s = .ok s' ∧ R s' (calls.foldl serve' t) := by
  induction calls generalizing s t with
  | nil => exact ⟨s, rfl, h⟩
  | cons call rest ih =>
    obtain ⟨s₁, hfirst, h₁⟩ := hserve call (List.mem_cons_self ..) s t h
    have hrest := fun other hother => hserve other (List.mem_cons_of_mem _ hother)
    obtain ⟨s₂, hothers, h₂⟩ := ih hrest h₁
    refine ⟨s₂, ?_, h₂⟩
    rw [List.foldlM_cons, hfirst]
    exact hothers

/-- What the last of the calls that leave something leaves behind. -/
def lastOf? (left? : ι → Option α) (calls : List ι) : Option α := calls.reverse.findSome? left?

/-- Whatever is there at first, one more call leaves what it leaves, or else what was there. -/
theorem getD_lastOf?_concat (left? : ι → Option α) (calls : List ι) (call : ι) (first : α) :
    (lastOf? left? (calls ++ [call])).getD first
      = (left? call).getD ((lastOf? left? calls).getD first) := by
  unfold lastOf?
  rw [List.reverse_append, List.findSome?_append, List.reverse_singleton, List.findSome?_singleton]
  exact Option.getD_or

/-- Different numbers that are exactly those below a bound with a property are as many as these. -/
theorem length_eq_countP {numbers : List Nat} (hnodup : numbers.Nodup) {bound : Nat}
    {holds : Nat → Bool} (hmem : ∀ k, k ∈ numbers ↔ k < bound ∧ holds k = true) :
    numbers.length = (List.range bound).countP holds := by
  have hperm : numbers.Perm ((List.range bound).filter holds) := by
    refine (List.perm_ext_iff_of_nodup hnodup (List.nodup_range.filter _)).mpr fun k => ?_
    rw [hmem, List.mem_filter, List.mem_range]
  rw [List.countP_eq_length_filter, hperm.length_eq]

end DemandPaging
